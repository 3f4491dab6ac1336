import AgentBridge.Backend.Handlers
import AgentBridge.Proofs.Calls
import AgentBridge.Proofs.RoundTrip

/-
  AgentBridge.Proofs.Exchange — the two halves of the bridge agree.

  An exchange puts both halves together: a call is written, a backend runs on what was written,
  and what the backend wrote is read as the reply. The handler of the action is run once, on
  the payload of the call, and the answer says how it ended (`exchange_of_handler`): its result
  if that has a JSON text, its failure with the message as it is, and otherwise that nothing
  was written.
-/

namespace AgentBridge

/-! ## Exchanges -/

/-- What a finished backend leaves to its caller. A complaint may have other lines above its last one. -/
def Backend.Finish.reply (f : Finish) (above : List Char) : Reply :=
  ⟨Utf8.encode f.stdout, f.complaint.elim [] fun line => Utf8.encode (above ++ line.toList ++ ['\n']), some f.status⟩

/-- A call that a backend answers on what it is given behind the program and the script. -/
def Config.exchange {m : Type → Type} [Monad m] (c : Config) (d : DispatchIn m) (debug : Bool) (above : List Char)
    (call : Call) : m Answer :=
  match c.argv call with
  | .error e => pure (.error (.reported e))
  | .ok argv => (fun f => (f.reply above).result) <$> Backend.runIn d debug (argv.drop 2)

/-- What the caller is told when a handler ends. -/
def Handled.answer (debug : Bool) (above : List Char) (h : Handled) : Answer :=
  (((Backend.settle h).finish debug).reply above).result

/-! ## Levels -/

namespace Json

variable {F : Type} {s : Style F}

mutual

/-- On one line, a level makes no difference. -/
theorem writeAt_level (hs : s.layout = .oneLine) (a b : Nat) : (v : Value F) → writeAt s a v = writeAt s b v
  | .null | .bool true | .bool false | .int _ | .float _ | .str _ | .array [] | .object [] | .foreign _ => rfl
  | .array (v :: rest) => by
    simp only [writeAt, writeAt_level hs (a + 1) (b + 1) v, writeItems_level hs (a + 1) (b + 1) rest, hs,
      Layout.newline]
  | .object ((k, v) :: rest) => by
    simp only [writeAt, writeAt_level hs (a + 1) (b + 1) v, writeMembers_level hs (a + 1) (b + 1) rest, hs,
      Layout.newline]

theorem writeItems_level (hs : s.layout = .oneLine) (a b : Nat) :
    (items : List (Value F)) → writeItems s a items = writeItems s b items
  | [] => rfl
  | v :: rest => by
    simp only [writeItems, writeAt_level hs a b v, writeItems_level hs a b rest, hs, Layout.comma]

theorem writeMembers_level (hs : s.layout = .oneLine) (a b : Nat) :
    (members : List (Text × Value F)) → writeMembers s a members = writeMembers s b members
  | [] => rfl
  | (k, v) :: rest => by
    simp only [writeMembers, writeAt_level hs a b v, writeMembers_level hs a b rest, hs, Layout.comma]

end

/-- The text of an object with a member stands between its brackets. -/
theorem writeAt_object {level : Nat} {kv : Text × Value F} {rest : List (Text × Value F)} {t : List Char}
    (h : writeAt s level (.object (kv :: rest)) = .ok t) : ∃ inner, t = '\x7b' :: inner ++ ['\x7d'] := by
  obtain ⟨k, v⟩ := kv
  obtain ⟨first, -, h⟩ := bind_eq_ok.mp h
  obtain ⟨others, -, h⟩ := bind_eq_ok.mp h
  cases h
  exact ⟨_, by rw [List.cons_append, List.cons_append, List.cons_append, List.cons_append, List.cons_append]⟩

/-- What cannot be written by itself cannot be written inside an envelope. -/
theorem writeAt_success_error (hs : s.layout = .oneLine) {v : Value F} {e : WriteError}
    (h : writeAt s 0 v = .error e) : writeAt s 0 (Envelope.success v) = .error e := by
  have hne : v ≠ .null := by
    rintro rfl
    cases h
  have hobject : Envelope.success v = .object [("ok", .bool true), ("data", v)] := by
    cases v with
    | null => exact absurd rfl hne
    | _ => rfl
  rw [hobject, writeAt, writeMembers, writeAt_level hs (0 + 1) 0 v, h]
  rfl

end Json

/-! ## Endings -/

namespace Backend

open Json (Readable nestingLimit)

/-- An envelope that a text can hold is written, and its line is read as that envelope. -/
theorem exists_endWith {members : List (Text × Json)} {e : Envelope} (hne : members ≠ [])
    (hr : Readable nestingLimit (.object members)) (he : Envelope.ofMembers members = .ok e)
    (ending : List Char → Ending) :
    ∃ t, endWith ending (.ofJson (.object members)) = ending t ∧ ∀ status above,
      ((Finish.mk status (t ++ ['\n']) none).reply above).result = Reply.verdict e [] (some status) := by
  obtain ⟨t, ht, hread⟩ := Json.read_of_writeAt (s := style) 0 hr (by simp [style])
  have hdepth : (Value.ofJson (.object members) : Payload).depth ≤ nestingLimit := Json.depth_ofJson_le hr
  refine ⟨t, by simp only [endWith, ht, if_pos hdepth], fun status above => ?_⟩
  have htrim : Blank.trim (t ++ ['\n']) = t := by
    obtain ⟨⟨k, v⟩, rest, rfl⟩ := List.exists_cons_of_ne_nil hne
    obtain ⟨inner, rfl⟩ := Json.writeAt_object ht
    rw [Blank.trim_append_blanks (List.forall_mem_singleton.mpr rfl)]
    exact Blank.trim_enclosed (by decide) (by decide) inner
  have henvelope : Envelope.read (Blank.trim (t ++ ['\n'])) = .ok e := by
    rw [htrim]
    exact Envelope.read_of_object hread he
  exact Reply.result_of_read (Utf8.decode?_eq_ok_iff.mpr rfl) henvelope

/-- A result that fits into an envelope is the answer. -/
theorem answer_of_returned (debug : Bool) (above : List Char) {r : Json} (hr : Readable (nestingLimit - 1) r) :
    (Handled.returned (.ofJson r)).answer debug above = .ok r := by
  have hlimit : nestingLimit - 1 + 1 = nestingLimit := rfl
  have hok : Readable (nestingLimit - 1) (.bool true) := .bool true
  by_cases hnull : r = .null
  · subst hnull
    have hobject : Readable nestingLimit (.object [("ok", .bool true)]) := by
      rw [← hlimit]
      exact .object (by decide) (by simp [Text.paired_ofString]) (by simpa using hok)
    obtain ⟨t, ht, hresult⟩ := exists_endWith (by simp) hobject rfl .answered
    show (((endWith .answered (.ofJson (.object [("ok", .bool true)]))).finish debug).reply above).result = _
    rw [ht]
    exact hresult 0 above
  · have hobject : Readable nestingLimit (.object [("ok", .bool true), ("data", r)]) := by
      rw [← hlimit]
      have hkeys : [Text.ofString "ok", Text.ofString "data"].Nodup := by decide
      exact .object hkeys (by simp [Text.paired_ofString]) (by simpa using ⟨hok, hr⟩)
    obtain ⟨t, ht, hresult⟩ := exists_endWith (by simp) hobject rfl .answered
    have hsuccess : Envelope.success (.ofJson r) =
        (.ofJson (.object [("ok", .bool true), ("data", r)]) : Payload) := by
      cases r with
      | null => exact absurd rfl hnull
      | foreign x => exact nomatch x
      | _ => rfl
    show (((endWith .answered (Envelope.success (.ofJson r))).finish debug).reply above).result = _
    rw [hsuccess, ht]
    exact hresult 0 above

/-- A refusal hands on its message as it is. -/
theorem result_of_refuse (debug : Bool) (above : List Char) {message : Text} (hm : message.Paired) :
    (((refuse message).finish debug).reply above).result = .error (.reported (.refused message (some 1))) := by
  have hkeys : [Text.ofString "ok", Text.ofString "error"].Nodup := by decide
  have hfalse : Readable 0 (.bool false) := .bool false
  have hmessage : Readable 0 (.str message) := .str hm
  have hobject : Readable 1 (.object [("ok", .bool false), ("error", .str message)]) :=
    .object hkeys (by simp [Text.paired_ofString]) (by simpa using ⟨hfalse, hmessage⟩)
  obtain ⟨t, ht, hresult⟩ := exists_endWith (by simp) (hobject.mono (by decide)) rfl .refused
  show (((endWith .refused (.ofJson (.object [("ok", .bool false), ("error", .str message)]))).finish debug).reply
    above).result = _
  rw [ht]
  exact hresult 1 above

/-- A failure is told with its message, or with its kind where the message is empty. -/
theorem answer_of_failed (debug : Bool) (above : List Char) (kind : String) {message : Text} (hm : message.Paired) :
    (Handled.failed kind message).answer debug above =
      .error (.reported (.refused (if message.isEmpty then Text.ofString kind else message) (some 1))) := by
  refine result_of_refuse debug above ?_
  split
  · exact Text.paired_ofString kind
  · exact hm

theorem exists_of_complaint (e : Json.WriteError) :
    ∃ c ∈ (Crash.unwritable e).complaint.toList, Blank.isBlank c = false := by
  have hmem : ∀ {c : Char} {word rest : String}, c ∈ word.toList → c ∈ (word ++ rest).toList := by
    intro c word rest hc
    rw [String.toList_append]
    exact List.mem_append_left _ hc
  have hvalue : 'V' ∈ "ValueError: ".toList := by decide
  cases e with
  | foreign kind =>
    have htype : 'T' ∈ "TypeError: ".toList := by decide
    exact ⟨'T', hmem htype, by decide⟩
  | notFinite => exact ⟨'V', hmem hvalue, by decide⟩
  | tooManyDigits => exact ⟨'V', hmem hvalue, by decide⟩

/-- Of a result that has no JSON text nothing is written but, while debugging is on, a complaint. -/
theorem answer_of_unwritable (debug : Bool) (above : List Char) {v : Payload} {e : Json.WriteError}
    (h : Json.writeAt style 0 v = .error e) :
    (Handled.returned v).answer debug above = .error (.reported (if debug then
      .diagnostic (Blank.trim (above ++ (Crash.unwritable e).complaint.toList)) else .silent)) := by
  have hcrash : settle (.returned v) = .crashed (.unwritable e) := by
    simp only [settle, Backend.answer, endWith, Json.writeAt_success_error rfl h]
  rw [Handled.answer, hcrash]
  cases debug with
  | false => rfl
  | true =>
    obtain ⟨c, hc, hblank⟩ := exists_of_complaint e
    have hnone : Blank.trim (above ++ (Crash.unwritable e).complaint.toList) ≠ [] :=
      Blank.trim_ne_nil ⟨c, List.mem_append_right _ hc, hblank⟩
    have hcomplaint : ((Ending.finish true (.crashed (.unwritable e))).reply above).complaint =
        Blank.trim (above ++ (Crash.unwritable e).complaint.toList) := by
      show Blank.trim (Utf8.decodeLossy (Utf8.encode (above ++ (Crash.unwritable e).complaint.toList ++ ['\n']))) = _
      rw [Utf8.decodeLossy_encode, Blank.trim_append_blanks (List.forall_mem_singleton.mpr rfl)]
    have hout : Utf8.decode? ((Ending.finish true (.crashed (.unwritable e))).reply above).stdout = .ok [] := rfl
    have hempty : (Blank.trim []).isEmpty = true := rfl
    simp only [Reply.result, hout, hempty, hcomplaint, if_true, List.isEmpty_iff, hnone, if_false]

end Backend

/-! ## The handler of an action -/

namespace Config

variable {m : Type → Type} [Monad m] [LawfulMonad m]

omit [LawfulMonad m] in
/-- A backend is started with the payload of the call as text. -/
theorem exchange_of_encode {c : Config} {d : DispatchIn m} {debug : Bool} {above : List Char} {call : Call}
    {t : List Char} (ht : call.payload.encode = .ok t) : c.exchange d debug above call =
      (fun f => (f.reply above).result) <$> Backend.runIn d debug [call.action, Text.ofChars t] := by
  simp only [exchange, argv_of_encode ht]
  rfl

/-- The handler of an action is run once, on the payload of the call, and the answer is what its end means
for the caller. -/
theorem exchange_eq_map {c : Config} {entries : List (Text × Option (HandlerIn m))} {action : Text} {h : HandlerIn m}
    (hh : Backend.handler? entries action = some h) {cs : List Char} {p : Json} (hp : Json.read cs = .ok p)
    (hfinite : p.AllFinite) (debug : Bool) (above : List Char) :
    c.exchange (.table entries) debug above ⟨action, .ofJson p⟩ = Handled.answer debug above <$> h p := by
  obtain ⟨t, ht, hread⟩ := Json.read_of_writeAt (s := Payload.style) 0 (Json.readable_of_read hp) fun _ => hfinite
  have hencode : Payload.encode (.ofJson p) = .ok t := by rw [Payload.encode, ht]
  have hending : Backend.ending (.table entries) [action, Text.ofChars t] = Backend.settle <$> h p := by
    cases entries with
    | nil => cases hh
    | cons entry entries =>
      simp only [Backend.ending, hh, Backend.handle, Backend.payloadText, Text.toCharsLossy_ofChars, hread]
  rw [exchange_of_encode hencode, Backend.runIn, hending]
  simp only [Functor.map_map]
  rfl

/-- The two halves agree: the handler of the action is run once, on the payload of the call. A result that
fits into an envelope comes back, a failure is told with its message or else its kind, and of a result
that has no JSON text nothing is heard but the complaint of a backend that is debugged. -/
theorem exchange_of_handler {c : Config} {entries : List (Text × Option (HandlerIn m))} {action : Text}
    {h : HandlerIn m} (hh : Backend.handler? entries action = some h) {cs : List Char} {p : Json}
    (hp : Json.read cs = .ok p) (hfinite : p.AllFinite) (debug : Bool) (above : List Char) :
    c.exchange (.table entries) debug above ⟨action, .ofJson p⟩ = Handled.answer debug above <$> h p ∧
    (∀ r, Json.Readable (Json.nestingLimit - 1) r →
      (Handled.returned (.ofJson r)).answer debug above = .ok r) ∧
    (∀ kind message, Text.Paired message → (Handled.failed kind message).answer debug above =
      .error (.reported (.refused (if message.isEmpty then Text.ofString kind else message) (some 1)))) ∧
    (∀ v e, Json.writeAt Backend.style 0 v = .error e → (Handled.returned v).answer debug above =
      .error (.reported (if debug then
        .diagnostic (Blank.trim (above ++ (Backend.Crash.unwritable e).complaint.toList)) else .silent))) :=
  ⟨exchange_eq_map hh hp hfinite debug above, fun _ hr => Backend.answer_of_returned debug above hr,
    fun kind _ hm => Backend.answer_of_failed debug above kind hm,
    fun _ _ he => Backend.answer_of_unwritable debug above he⟩

/-- A handler that hands its payload back. -/
theorem exchange_of_handler_echo :
    Config.exchange ⟨"python", "backend.py", none⟩ (.table [("status", some Handler.echo)]) true []
        ⟨"status", .ofJson (.array [.bool false])⟩ =
      (pure (.ok (.array [.bool false])) : Id Answer) := by
  have hhandler : Backend.handler? [("status", some Handler.echo)] "status" =
      some Handler.echo := by rfl
  have hread : Json.read "[false]".toList = .ok (.array [.bool false]) := by rfl
  have hfinite : Json.AllFinite (.array [.bool false]) := .array (by simpa using .bool false)
  have hreadable : Json.Readable (Json.nestingLimit - 1) (.array [.bool false]) :=
    .array (by simpa using .bool false)
  obtain ⟨hrun, hreturned, -, -⟩ :=
    exchange_of_handler (c := ⟨"python", "backend.py", none⟩) hhandler hread hfinite true []
  rw [hrun]
  exact congrArg (pure (f := Id)) (hreturned _ hreadable)

/-- An action without a handler is refused. -/
theorem exchange_of_no_handler {c : Config} {entries : List (Text × Option (HandlerIn m))} {action : Text}
    (hne : entries ≠ []) (hh : Backend.handler? entries action = none) (ha : action.Paired) {payload : Payload}
    {t : List Char} (ht : payload.encode = .ok t) (debug : Bool) (above : List Char) :
    c.exchange (.table entries) debug above ⟨action, payload⟩ =
      pure (.error (.reported (.refused ("Unsupported bridge action: " ++ action) (some 1)))) := by
  have hending : Backend.ending (.table entries) [action, Text.ofChars t] =
      pure (Backend.refuse ("Unsupported bridge action: " ++ action)) := by
    obtain ⟨entry, entries, rfl⟩ := List.exists_cons_of_ne_nil hne
    simp only [Backend.ending, hh]
  have hmessage : (Text.ofString "Unsupported bridge action: " ++ action).Paired :=
    Text.paired_ofChars_append _ ha
  rw [exchange_of_encode ht, Backend.runIn, hending, map_pure, map_pure]
  exact congrArg pure (Backend.result_of_refuse debug above hmessage)

end Config
end AgentBridge
