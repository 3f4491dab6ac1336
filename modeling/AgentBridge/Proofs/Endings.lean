import AgentBridge.Proofs.Exchange
import AgentBridge.Proofs.Standard

/-
  AgentBridge.Proofs.Endings — what a backend leaves behind.

  A backend writes all or nothing. It runs the handler of its action once, or no handler at all
  (`runIn_cases`), and whichever way it ends, it leaves one whole line with the envelope that
  its exit status promises, or no output (`runIn_all_or_nothing`). A refusal has a reason, unless
  the handler has failed without any (`refused_without_reason`). The exit statuses 0 and 1
  promise an envelope. A handler that ends the process itself with one of them breaks this
  promise, and nothing else does (`runIn_documented`).
-/

namespace AgentBridge

namespace Text

/-- Joining surrogates leaves no text empty but the empty one. -/
theorem pair_eq_nil_iff {t : Text} : t.pair = [] ↔ t = [] := by
  constructor
  · intro h
    unfold pair at h
    split at h
    · cases h
    · cases h
    · rfl
  · rintro rfl
    rfl

theorem ofString_eq_nil_iff {s : String} : ofString s = [] ↔ s = "" := by
  rw [ofString, ofChars, List.map_eq_nil_iff, String.toList_eq_nil_iff]

end Text

namespace Backend

open Json (nestingLimit)

/-! ## What is left -/

namespace Finish

/-- The output is one line, and it is read as a value. -/
def Writes (f : Finish) (v : Json) : Prop :=
  ∃ line, f.stdout = line ++ ['\n'] ∧ '\n' ∉ line ∧ Json.read line = .ok v

/-- An answer, with data or without. -/
structure Answers (f : Finish) (data : Option Json) : Prop where
  status : f.status = 0
  line : f.Writes (.object (("ok", .bool true) :: (data.map fun v => ((Text.ofString "data", v) : Text × Json)).toList))

/-- A refusal, with its message. -/
structure Refuses (f : Finish) (message : Text) : Prop where
  status : f.status = 1
  line : f.Writes (.object [("ok", .bool false), ("error", .str message)])

/-- A crash, with nothing written. -/
structure Crashes (f : Finish) : Prop where
  status : f.status = 2
  silent : f.stdout = []

/-- The exit statuses 0 and 1 come with an answer and with a refusal. -/
structure Documented (f : Finish) : Prop where
  answers : f.status = 0 → ∃ data, f.Answers data
  refuses : f.status = 1 → ∃ message, f.Refuses message

variable {f : Finish}

theorem Writes.ne_nil {v : Json} (h : f.Writes v) : f.stdout ≠ [] := by
  obtain ⟨line, hline, -, -⟩ := h
  rw [hline]
  exact List.append_ne_nil_of_right_ne_nil line (List.cons_ne_nil _ _)

theorem Writes.unique {v v' : Json} (h : f.Writes v) (h' : f.Writes v') : v = v' := by
  obtain ⟨line, hline, -, hread⟩ := h
  obtain ⟨line', hline', -, hread'⟩ := h'
  obtain rfl : line = line' := List.append_cancel_right (hline.symm.trans hline')
  exact Except.ok.inj (hread.symm.trans hread')

theorem Refuses.unique {message message' : Text} (h : f.Refuses message) (h' : f.Refuses message') :
    message = message' := by
  have hsame := h.line.unique h'.line
  simpa using hsame

theorem Answers.documented {data : Option Json} (h : f.Answers data) : f.Documented where
  answers _ := ⟨data, h⟩
  refuses hs := absurd (h.status.symm.trans hs) (by decide)

theorem Refuses.documented {message : Text} (h : f.Refuses message) : f.Documented where
  answers hs := absurd (h.status.symm.trans hs) (by decide)
  refuses _ := ⟨message, h⟩

theorem Crashes.documented (h : f.Crashes) : f.Documented where
  answers hs := absurd (h.status.symm.trans hs) (by decide)
  refuses hs := absurd (h.status.symm.trans hs) (by decide)

end Finish

/-! ## Envelopes -/

/-- A result has a text, and its brackets leave room for those of an envelope. -/
def Fits (v : Payload) : Prop := (∃ t, Json.writeAt style 0 v = .ok t) ∧ v.depth < nestingLimit

/-- What an answer says of a result: of nothing, nothing. -/
def dataOf : Payload → Option Json
  | .null => none
  | v => some v.told

theorem told_success (v : Payload) : (Envelope.success v).told =
    .object (("ok", .bool true) :: ((dataOf v).map fun v => ((Text.ofString "data", v) : Text × Json)).toList) := by
  have hset : ∀ w : Json, Members.set (Text.ofString "data") w [(Text.ofString "ok", .bool true)] =
      [(Text.ofString "ok", .bool true), (Text.ofString "data", w)] := fun _ => rfl
  have hok : Text.pair (Text.ofString "ok") = "ok" := Text.pair_ofChars _
  have hdata : Text.pair (Text.ofString "data") = "data" := Text.pair_ofChars _
  cases v
  case null => rfl
  all_goals
    simp only [Envelope.success, dataOf, Value.told, Value.toldMembers, hok, hdata, Members.set, hset,
      Option.map_some, Option.toList_some]

theorem depth_success (v : Payload) : (Envelope.success v).depth = v.depth + 1 := by
  cases v
  case null => rfl
  all_goals simp only [Envelope.success, Value.depth, Value.depthOfMembers, Nat.max_zero, Nat.zero_max]

/-- A result can be written inside an envelope if it can be written by itself. -/
theorem exists_writeAt_success {v : Payload} {t : List Char} (h : Json.writeAt style 0 v = .ok t) :
    ∃ line, Json.writeAt style 0 (Envelope.success v) = .ok line := by
  have hinner : Json.writeAt style (0 + 1) v = .ok t := by rw [Json.writeAt_level rfl (0 + 1) 0 v, h]
  cases v
  case null => exact ⟨_, rfl⟩
  all_goals
    simp only [Envelope.success, Json.writeAt, Json.writeMembers] at hinner ⊢
    rw [hinner]
    exact ⟨_, rfl⟩

/-- An envelope that was written is one line, which is read as what it tells. -/
theorem writes_of_writeAt {envelope : Payload} {t : List Char} (h : Json.writeAt style 0 envelope = .ok t)
    (hd : envelope.depth ≤ nestingLimit) (status : Int) :
    (Finish.mk status (t ++ ['\n']) none).Writes envelope.told := by
  refine ⟨t, rfl, fun hmem => ?_, Json.read_of_told h hd⟩
  have hprinted := (Json.printable_writeAt rfl _ h '\n' hmem).1
  exact absurd hprinted (by decide)

end Backend

/-- What is seen of a backend whose handler has ended. -/
def Handled.finish (debug : Bool) (h : Handled) : Backend.Finish := (Backend.settle h).finish debug

namespace Backend

open Json (nestingLimit)

variable (debug : Bool)

/-- A result that fits into an envelope has a line. -/
theorem exists_answered {v : Payload} (h : Fits v) :
    ∃ line, Json.writeAt style 0 (Envelope.success v) = .ok line ∧ settle (.returned v) = .answered line := by
  obtain ⟨⟨t, ht⟩, hd⟩ := h
  obtain ⟨line, hline⟩ := exists_writeAt_success ht
  have hdepth : (Envelope.success v).depth ≤ nestingLimit := by
    rw [depth_success]
    exact hd
  exact ⟨line, hline, by simp only [settle, answer, endWith, hline, if_pos hdepth]⟩

/-- A refusal always has a line. -/
theorem exists_refused (message : Text) :
    ∃ line, Json.writeAt style 0 (Envelope.refusal message) = .ok line ∧ refuse message = .refused line := by
  have hline : ∃ line, Json.writeAt style 0 (Envelope.refusal message) = .ok line := ⟨_, rfl⟩
  obtain ⟨line, hline⟩ := hline
  exact ⟨line, hline, by simp only [refuse, endWith, hline, if_pos (Envelope.depth_refusal_le message)]⟩

/-- A result that fits into an envelope is answered. -/
theorem answers_of_fits {v : Payload} (h : Fits v) : ((Handled.returned v).finish debug).Answers (dataOf v) := by
  obtain ⟨line, hline, hsettle⟩ := exists_answered h
  have hdepth : (Envelope.success v).depth ≤ nestingLimit := by
    rw [depth_success]
    exact h.2
  have hwrites := writes_of_writeAt hline hdepth 0
  rw [told_success] at hwrites
  rw [Handled.finish, hsettle]
  exact ⟨rfl, hwrites⟩

/-- Of any other result nothing is written. -/
theorem crashes_of_not_fits {v : Payload} (h : ¬ Fits v) : ((Handled.returned v).finish debug).Crashes := by
  have hcrash : ∃ c, settle (.returned v) = .crashed c := by
    cases hv : Json.writeAt style 0 v with
    | error e =>
      refine ⟨.unwritable e, ?_⟩
      simp only [settle, answer, endWith, Json.writeAt_success_error rfl hv]
    | ok t =>
      obtain ⟨line, hline⟩ := exists_writeAt_success hv
      have hdepth : ¬ (Envelope.success v).depth ≤ nestingLimit := by
        rw [depth_success]
        exact fun hd => h ⟨⟨t, hv⟩, hd⟩
      refine ⟨.tooDeep, ?_⟩
      simp only [settle, answer, endWith, hline, if_neg hdepth]
  obtain ⟨c, hc⟩ := hcrash
  rw [Handled.finish, hc]
  exact ⟨rfl, rfl⟩

/-- A refusal is always written. -/
theorem refuses_refuse (message : Text) : ((refuse message).finish debug).Refuses message.pair := by
  obtain ⟨line, hline, hrefuse⟩ := exists_refused message
  rw [hrefuse]
  exact ⟨rfl, writes_of_writeAt hline (Envelope.depth_refusal_le message) 1⟩

/-- The message of a failure, or else its kind. -/
def reason (kind : String) (message : Text) : Text := if message = [] then kind else message

theorem reason_eq_nil_iff {kind : String} {message : Text} : reason kind message = [] ↔ kind = "" ∧ message = [] := by
  unfold reason
  by_cases hm : message = []
  · rw [if_pos hm, Text.ofString_eq_nil_iff]
    exact (and_iff_left hm).symm
  · rw [if_neg hm]
    exact iff_of_false hm fun h => hm h.2

/-- A failure is refused with its reason. -/
theorem refuses_of_failed (kind : String) (message : Text) :
    ((Handled.failed kind message).finish debug).Refuses (reason kind message).pair := by
  have hreason : (if message.isEmpty then Text.ofString kind else message) = reason kind message := by
    simp only [reason, List.isEmpty_iff]
  rw [Handled.finish, settle, hreason]
  exact refuses_refuse debug _

/-! ## Whether a handler is run -/

/-- How a backend ends by itself: with a refusal that has a reason, or with a crash. -/
inductive Ending.Unhandled : Ending → Prop
  | refused {message : Text} : message ≠ [] → Unhandled (refuse message)
  | crashed {c : Crash} : Unhandled (.crashed c)

theorem Ending.Unhandled.cases {e : Ending} (h : e.Unhandled) :
    (e.finish debug).Crashes ∨ ∃ message, message ≠ [] ∧ (e.finish debug).Refuses message := by
  rcases h with @⟨message, hne⟩ | _
  · exact Or.inr ⟨Text.pair message, mt Text.pair_eq_nil_iff.mp hne, refuses_refuse debug message⟩
  · exact Or.inl ⟨rfl, rfl⟩

theorem Ending.Unhandled.documented {e : Ending} (h : e.Unhandled) : (e.finish debug).Documented := by
  rcases h.cases debug with hcrash | ⟨message, -, hrefusal⟩
  · exact hcrash.documented
  · exact hrefusal.documented

section

variable {m : Type → Type}

/-- What a backend was given runs a handler on a value: there is a handler of the action, and the text of the payload
is read as the value. -/
inductive Runs : DispatchIn m → List Text → HandlerIn m → Json → Prop
  | intro {entries : List (Text × Option (HandlerIn m))} {action : Text} {rest : List Text} {handler : HandlerIn m}
      {v : Json} : handler? entries action = some handler → Json.read (payloadText rest) = .ok v →
      Runs (.table entries) (action :: rest) handler v

variable [Monad m]

/-- A backend runs one handler once, or it runs none and ends by itself. -/
theorem ending_cases (d : DispatchIn m) (argv : List Text) :
    (∃ handler v, Runs d argv handler v ∧ ending d argv = settle <$> handler v) ∨
    ((∀ handler v, ¬ Runs d argv handler v) ∧ ∃ e, ending d argv = pure e ∧ e.Unhandled) := by
  have hrefuse : ∀ {message : Text}, message ≠ [] → ending d argv = pure (refuse message) →
      ∃ e, ending d argv = pure e ∧ e.Unhandled := fun hne h => ⟨_, h, .refused hne⟩
  -- The cases come in the order of the checks: the table, the action, its handler, the payload.
  rcases d with entries | _
  · rcases entries with _ | ⟨entry, entries⟩
    · refine Or.inr ⟨fun handler v h => ?_, hrefuse (List.cons_ne_nil _ _) rfl⟩
      rcases h with ⟨hh, -⟩
      cases hh
    rcases argv with _ | ⟨action, rest⟩
    · refine Or.inr ⟨fun handler v h => ?_, hrefuse (List.cons_ne_nil _ _) rfl⟩
      cases h
    cases hh : handler? (entry :: entries) action with
    | none =>
      refine Or.inr ⟨fun handler v h => ?_, ?_⟩
      · rcases h with ⟨hh', -⟩
        cases hh.symm.trans hh'
      · have hne : Text.ofString "Unsupported bridge action: " ++ action ≠ [] := List.cons_ne_nil _ _
        apply hrefuse hne
        simp only [ending, hh]
    | some handler =>
      have hending : ending (.table (entry :: entries)) (action :: rest) = handle handler (payloadText rest) := by
        simp only [ending, hh]
      cases hv : Json.read (payloadText rest) with
      | ok v =>
        refine Or.inl ⟨handler, v, .intro hh hv, ?_⟩
        simp only [hending, handle, hv]
      | error misreading =>
        refine Or.inr ⟨fun handler v h => ?_, ?_⟩
        · rcases h with ⟨-, hv'⟩
          cases hv.symm.trans hv'
        rcases misreading with ⟨f, p⟩ | l
        · have hne : ("Invalid payload JSON: " ++ Json.faultMessage f p : String) ≠ "" := by
            simp [String.append_eq_empty_iff]
          apply hrefuse (mt Text.ofString_eq_nil_iff.mp hne)
          simp only [hending, handle, hv]
        · refine ⟨.crashed (.limit l), ?_, .crashed⟩
          simp only [hending, handle, hv]
  · refine Or.inr ⟨fun handler v h => ?_, hrefuse (List.cons_ne_nil _ _) rfl⟩
    cases h

variable [LawfulMonad m]

/-- What is seen of a backend is what the end of its handler means, or how it ends by itself. -/
theorem runIn_cases (d : DispatchIn m) (argv : List Text) :
    (∃ handler v, Runs d argv handler v ∧ runIn d debug argv = Handled.finish debug <$> handler v) ∨
    ((∀ handler v, ¬ Runs d argv handler v) ∧
      ∃ e, runIn d debug argv = pure (Ending.finish debug e) ∧ e.Unhandled) := by
  rcases ending_cases d argv with ⟨handler, v, hruns, h⟩ | ⟨hnone, e, h, he⟩
  · refine Or.inl ⟨handler, v, hruns, ?_⟩
    rw [runIn, h, Functor.map_map]
    rfl
  · exact Or.inr ⟨hnone, e, by rw [runIn, h, map_pure], he⟩

/-! ## All or nothing -/

/-- A backend writes all or nothing. It runs the handler of its action at most once, and none where the table, the
action or the payload is not valid: then it refuses with a reason or crashes. A result that fits into an envelope is
answered, with data unless it is nothing, and any other result is a crash. A failure is refused with a reason, unless
neither its message nor its kind says anything. A handler that ends the process leaves no output. And whatever ends
with the exit status of a crash has written nothing. -/
theorem runIn_all_or_nothing (d : DispatchIn m) (argv : List Text) :
    ((∃ handler v, Runs d argv handler v ∧ runIn d debug argv = Handled.finish debug <$> handler v) ∨
      ((∀ handler v, ¬ Runs d argv handler v) ∧
        ∃ f, runIn d debug argv = pure f ∧ (f.Crashes ∨ ∃ message, message ≠ [] ∧ f.Refuses message))) ∧
    (∀ v, Fits v → ((Handled.returned v).finish debug).Answers (dataOf v)) ∧
    (∀ v, ¬ Fits v → ((Handled.returned v).finish debug).Crashes) ∧
    (∀ kind message, ((Handled.failed kind message).finish debug).Refuses (reason kind message).pair ∧
      ((reason kind message).pair = [] ↔ kind = "" ∧ message = [])) ∧
    (∀ complaint, ((Handled.unspeakable complaint).finish debug).Crashes) ∧
    (∀ status complaint, (Handled.left status complaint).finish debug = ⟨status, [], complaint⟩) ∧
    (∀ h : Handled, (h.finish debug).status = 2 → (h.finish debug).stdout = []) := by
  refine ⟨?_, fun v => answers_of_fits debug, fun v => crashes_of_not_fits debug,
    fun kind message => ⟨refuses_of_failed debug kind message, ?_⟩, fun _ => ⟨rfl, rfl⟩, fun _ _ => rfl, ?_⟩
  · rcases runIn_cases debug d argv with hruns | ⟨hnone, e, h, he⟩
    · exact Or.inl hruns
    · exact Or.inr ⟨hnone, e.finish debug, h, he.cases debug⟩
  · rw [Text.pair_eq_nil_iff, reason_eq_nil_iff]
  · intro h hs
    rcases h with v | ⟨kind, message⟩ | complaint | ⟨status, complaint⟩
    · by_cases hv : Fits v
      · exact absurd ((answers_of_fits debug hv).status.symm.trans hs) (by decide)
      · exact (crashes_of_not_fits debug hv).silent
    · exact absurd ((refuses_of_failed debug kind message).status.symm.trans hs) (by decide)
    · rfl
    · rfl

/-- A handler that counts its runs is run once, and as it gives nothing back there is no data. -/
theorem runIn_all_or_nothing_counted :
    ∃ f : Finish, f.Answers none ∧
      (runIn (m := StateM Nat) (.table [("status", some fun _ runs => (.returned .null, runs + 1))]) false
        ["status"]).run 0 = (f, 1) := by
  obtain ⟨hrun, hfits, -⟩ := runIn_all_or_nothing (m := StateM Nat) false
    (.table [("status", some fun _ runs => (.returned .null, runs + 1))]) ["status"]
  have hnull : Fits .null := ⟨⟨_, rfl⟩, by decide⟩
  refine ⟨_, hfits .null hnull, ?_⟩
  rcases hrun with ⟨handler, v, ⟨hh, hv⟩, h⟩ | ⟨hnone, -⟩
  · obtain rfl := Option.some.inj hh
    rw [h]
    rfl
  · exact absurd (.intro rfl rfl) (hnone _ (.object []))

/-- A failure whose kind and message are empty is refused with no word at all, and a word that is no standard JSON is
read as a payload and handled. -/
theorem refused_without_reason :
    (∃ f : Finish, run (.table [("status", some (Handler.fail "" []))]) false ["status"] = f ∧ f.Refuses [] ∧
      ∀ message, message ≠ [] → ¬ f.Refuses message) ∧
    ¬ Json.Standard "NaN".toList ∧
    Runs (m := Id) (.table [("status", some Handler.echo)]) ["status", "NaN"] Handler.echo (.float .nan) ∧
    ∃ f : Finish, run (.table [("status", some Handler.echo)]) false ["status", "NaN"] = f ∧
      f.Answers (some (.float .nan)) := by
  refine ⟨?_, ?_, .intro rfl rfl, ?_⟩
  · have hrefuses : ((Handled.failed "" []).finish false).Refuses [] := refuses_of_failed false "" []
    exact ⟨_, rfl, hrefuses, fun message hne h => hne (h.unique hrefuses)⟩
  · intro h
    exact h.not_namesInfinity ⟨"NaN".toList, List.mem_cons_self, List.infix_refl _⟩
  · have hfits : Fits (.float .nan) := ⟨⟨_, rfl⟩, by decide⟩
    exact ⟨_, rfl, answers_of_fits false hfits⟩

/-- A promise is kept by every handler that does not end the process with the exit status of an envelope. -/
theorem documented_iff {h : Handled} :
    (h.finish debug).Documented ↔ ∀ complaint, h ≠ .left 0 complaint ∧ h ≠ .left 1 complaint := by
  constructor
  · intro hd complaint
    constructor
    · rintro rfl
      obtain ⟨data, hanswer⟩ := hd.answers rfl
      exact hanswer.line.ne_nil rfl
    · rintro rfl
      obtain ⟨message, hrefusal⟩ := hd.refuses rfl
      exact hrefusal.line.ne_nil rfl
  · intro hne
    rcases h with v | ⟨kind, message⟩ | complaint | ⟨status, complaint⟩
    · by_cases hv : Fits v
      · exact (answers_of_fits debug hv).documented
      · exact (crashes_of_not_fits debug hv).documented
    · exact (refuses_of_failed debug kind message).documented
    · exact Finish.Crashes.documented ⟨rfl, rfl⟩
    · constructor
      · rintro rfl
        exact absurd rfl (hne complaint).1
      · rintro rfl
        exact absurd rfl (hne complaint).2

/-- The exit statuses 0 and 1 come with an answer and with a refusal, exactly as long as no handler ends the process
itself with one of them. -/
theorem runIn_documented (d : DispatchIn m) (argv : List Text) :
    ((∃ handler v, Runs d argv handler v ∧ runIn d debug argv = Handled.finish debug <$> handler v) ∨
      ∃ f, runIn d debug argv = pure f ∧ f.Documented) ∧
    ∀ h : Handled, (h.finish debug).Documented ↔ ∀ complaint, h ≠ .left 0 complaint ∧ h ≠ .left 1 complaint := by
  refine ⟨?_, fun h => documented_iff debug⟩
  rcases runIn_cases debug d argv with hruns | ⟨-, e, h, he⟩
  · exact Or.inl hruns
  · exact Or.inr ⟨e.finish debug, h, he.documented debug⟩

/-- A handler that leaves with the exit status of an answer, and none is written. -/
theorem runIn_documented_left :
    ∃ f : Finish, run (.table [("status", some (Handler.leave 0))]) true ["status"] = f ∧ f.status = 0 ∧
      f.stdout = [] ∧ ¬ f.Documented := by
  obtain ⟨-, hiff⟩ := runIn_documented (m := Id) true (.table [("status", some (Handler.leave 0))]) ["status"]
  have hleft : ¬ ((Handled.left 0 none).finish true).Documented := by
    rw [hiff]
    exact fun h => (h none).1 rfl
  refine ⟨(Handled.left 0 none).finish true, rfl, rfl, rfl, hleft⟩

end

end Backend

end AgentBridge
