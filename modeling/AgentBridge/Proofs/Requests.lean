import AgentBridge.Proofs.Shapes
import AgentBridge.Request
import Mathlib.Data.List.Pairwise
import Mathlib.Data.List.Perm.Basic

/-
  AgentBridge.Proofs.Requests — the wire form of a request is its normal form.

  A request is known by its fields (`Field`). An object is read as a request exactly if it holds
  a value for every field, under one of the two names of the field and of the kind that it has
  to be, and has no other keys (`Holds`); `holds_iff` leads this back to what a check asks.
  An object that lists some values under names of the fields holds these values whatever the
  names and the order are (`givenBy_spelled_iff`), and the wire form is such an object.

  What follows is the same for all requests. It is shown for any that is read by its fields
  (`ReadBy.normalForm`), and the three requests are of this sort (`requests_have_normal_forms`).
-/

namespace AgentBridge

/-! ## Fields -/

/-- What the value of a field has to be. -/
inductive FieldKind where
  | text
  | object
  deriving DecidableEq

def FieldKind.Allows : FieldKind → Json → Prop
  | .text, v => ∃ t, v = .str t
  | .object, v => ∃ m, v = .object m

/-- A field of a request: its name on the wire, its name for callers, and what its value has to be. -/
structure Field where
  wire : Text
  name : Text
  kind : FieldKind
  deriving DecidableEq

namespace Field

/-- A key is one of the names of a field. -/
def Spells (f : Field) (key : Text) : Prop := key = f.wire ∨ key = f.name

/-- An object gives a field a value, under one name of the field and not under the other one. -/
def GivenBy (f : Field) (m : Members Empty) (v : Json) : Prop :=
  ∃ key, f.Spells key ∧ m.get? key = some v ∧ ∀ other ∈ m.keys, f.Spells other → other = key

/-- Two fields have no name in common. -/
def Apart (f g : Field) : Prop := f.wire ≠ g.wire ∧ f.wire ≠ g.name ∧ f.name ≠ g.wire ∧ f.name ≠ g.name

instance : DecidableRel Apart := fun _ _ => inferInstanceAs (Decidable (_ ∧ _))

theorem Apart.symm {f g : Field} (h : f.Apart g) : g.Apart f := by
  obtain ⟨hww, hwn, hnw, hnn⟩ := h
  exact ⟨hww.symm, hnw.symm, hwn.symm, hnn.symm⟩

instance : Std.Symm Apart := ⟨fun _ _ => Apart.symm⟩

theorem Apart.ne {f g : Field} {key key' : Text} (h : f.Apart g) (hf : f.Spells key) (hg : g.Spells key') :
    key ≠ key' := by
  obtain ⟨hww, hwn, hnw, hnn⟩ := h
  rcases hf with rfl | rfl
  · rcases hg with rfl | rfl
    · exact hww
    · exact hwn
  · rcases hg with rfl | rfl
    · exact hnw
    · exact hnn

/-- Among fields that have no name in common, a name tells the field. -/
theorem eq_of_spells {fields : List Field} (hapart : fields.Pairwise Apart) {f g : Field} {key : Text}
    (hf : f ∈ fields) (hg : g ∈ fields) (hkey : f.Spells key) (hkey' : g.Spells key) : f = g := by
  by_contra hne
  exact (hapart.forall hf hg hne).ne hkey hkey' rfl

/-- The name under which a check looks for the field. -/
def spelled (f : Field) (m : Members Empty) : Text := Shape.spelling m f.wire f.name

theorem spells_spelled (f : Field) (m : Members Empty) : f.Spells (f.spelled m) := by
  unfold spelled Shape.spelling
  split
  · exact Or.inl rfl
  · exact Or.inr rfl

theorem spelled_eq {f : Field} {m : Members Empty} {key : Text} (hkey : f.Spells key) (hmem : key ∈ m.keys)
    (honly : ∀ other ∈ m.keys, f.Spells other → other = key) : f.spelled m = key := by
  by_cases hwire : f.wire ∈ m.keys
  · obtain ⟨v, hv⟩ := Members.exists_get? hwire
    rw [← honly f.wire hwire (Or.inl rfl), spelled, Shape.spelling, hv]
    rfl
  · have hname : key = f.name := hkey.resolve_left fun h => hwire (h ▸ hmem)
    rw [hname] at hmem ⊢
    exact Shape.spelling_eq_name hwire hmem

theorem givenBy_iff {f : Field} {m : Members Empty} {v : Json} :
    f.GivenBy m v ↔ m.get? (f.spelled m) = some v ∧ ∀ key ∈ m.keys, f.Spells key → key = f.spelled m := by
  constructor
  · intro h
    obtain ⟨key, hkey, hget, honly⟩ := h
    have hmem : key ∈ m.keys := List.mem_map_of_mem (f := Prod.fst) (Members.mem_of_get? hget)
    rw [spelled_eq hkey hmem honly]
    exact ⟨hget, honly⟩
  · intro h
    exact ⟨f.spelled m, f.spells_spelled m, h⟩

end Field

/-! ## Objects that hold values -/

/-- Fields with the values that they have. -/
abbrev Given := List (Field × Json)

/-- An object holds the given values, each of the kind that its field asks for, and has no other keys. -/
structure Holds (m : Members Empty) (given : Given) : Prop where
  each : ∀ x ∈ given, x.1.GivenBy m x.2 ∧ x.1.kind.Allows x.2
  known : ∀ key ∈ m.keys, ∃ x ∈ given, x.1.Spells key

/-- The members of an object that lists the given values, each under a name of its field. -/
def Given.spelled (given : Given) (spell : Field → Text) : Members Empty := given.map fun x => (spell x.1, x.2)

theorem Given.keys_spelled (given : Given) (spell : Field → Text) :
    (given.spelled spell).keys = given.map fun x => spell x.1 :=
  List.map_map

section

variable {m : Members Empty} {given : Given} (hapart : (given.map Prod.fst).Pairwise Field.Apart)

include hapart in
theorem fields_eq {x y : Field × Json} {key : Text} (hx : x ∈ given) (hy : y ∈ given) (hkey : x.1.Spells key)
    (hkey' : y.1.Spells key) : x.1 = y.1 :=
  Field.eq_of_spells hapart (List.mem_map_of_mem hx) (List.mem_map_of_mem hy) hkey hkey'

include hapart in
/-- What a check asks of an object that it is to read as a request. -/
theorem holds_iff (hwritten : ∀ x ∈ given, ∀ key, x.1.Spells key → key.toChars?.isSome = true) :
    Holds m given ↔ (∀ key ∈ m.keys, key.toChars?.isSome = true) ∧
      (∀ x ∈ given, m.get? (x.1.spelled m) = some x.2 ∧ x.1.kind.Allows x.2) ∧
      ∀ key ∈ m.keys, key ∈ given.map fun x => x.1.spelled m := by
  constructor
  · intro h
    refine ⟨?_, ?_, ?_⟩
    · intro key hkey
      obtain ⟨x, hx, hspells⟩ := h.known key hkey
      exact hwritten x hx key hspells
    · intro x hx
      obtain ⟨hgiven, hkind⟩ := h.each x hx
      exact ⟨(Field.givenBy_iff.mp hgiven).1, hkind⟩
    · intro key hkey
      obtain ⟨x, hx, hspells⟩ := h.known key hkey
      have honly := (Field.givenBy_iff.mp (h.each x hx).1).2
      rw [honly key hkey hspells]
      exact List.mem_map_of_mem hx
  · intro h
    obtain ⟨-, heach, hused⟩ := h
    constructor
    · intro x hx
      obtain ⟨hget, hkind⟩ := heach x hx
      refine ⟨Field.givenBy_iff.mpr ⟨hget, ?_⟩, hkind⟩
      intro key hkey hspells
      obtain ⟨y, hy, rfl⟩ := List.mem_map.mp (hused key hkey)
      rw [fields_eq hapart hx hy hspells (y.1.spells_spelled m)]
    · intro key hkey
      obtain ⟨x, hx, rfl⟩ := List.mem_map.mp (hused key hkey)
      exact ⟨x, hx, x.1.spells_spelled m⟩

include hapart in
/-- In an object that lists values under names of fields, every value is found under its name. -/
theorem get?_spelled {spell : Field → Text} (hspell : ∀ x ∈ given, x.1.Spells (spell x.1)) {x : Field × Json}
    (hx : x ∈ given) : (given.spelled spell).get? (spell x.1) = some x.2 := by
  induction given with
  | nil => cases hx
  | cons y rest ih =>
    obtain ⟨hfront, hrest⟩ := List.pairwise_cons.mp hapart
    rw [Given.spelled, List.map_cons, Members.get?]
    rcases List.mem_cons.mp hx with rfl | hmem
    · exact if_pos rfl
    · have hspells := List.forall_mem_cons.mp hspell
      have hne := (hfront x.1 (List.mem_map_of_mem hmem)).ne hspells.1 (hspells.2 x hmem)
      rw [if_neg hne]
      exact ih hrest hspells.2 hmem

include hapart in
/-- An object that lists values under names of fields gives the fields these values and no others. -/
theorem givenBy_spelled_iff {spell : Field → Text} (hspell : ∀ x ∈ given, x.1.Spells (spell x.1)) {f : Field}
    (hf : f ∈ given.map Prod.fst) {v : Json} : f.GivenBy (given.spelled spell) v ↔ (f, v) ∈ given := by
  constructor
  · intro h
    obtain ⟨key, hkey, hget, -⟩ := h
    obtain ⟨x, hx, hmember⟩ := List.mem_map.mp (Members.mem_of_get? hget)
    obtain ⟨rfl, rfl⟩ := Prod.mk.inj hmember
    obtain rfl := Field.eq_of_spells hapart hf (List.mem_map_of_mem hx) hkey (hspell x hx)
    exact hx
  · intro h
    refine ⟨spell f, hspell (f, v) h, get?_spelled hapart hspell h, ?_⟩
    intro other hother hspells
    rw [Given.keys_spelled] at hother
    obtain ⟨x, hx, rfl⟩ := List.mem_map.mp hother
    exact congrArg spell (fields_eq hapart h hx hspells (hspell x hx)).symm

include hapart in
/-- An object that lists values under names of fields holds the same values as any that are listed, if they are of the
right kinds. -/
theorem holds_spelled_iff {spell : Field → Text} (hspell : ∀ x ∈ given, x.1.Spells (spell x.1)) {other : Given}
    (hfields : (other.map Prod.fst).Perm (given.map Prod.fst)) :
    Holds (given.spelled spell) other ↔ ∀ x ∈ other, x ∈ given ∧ x.1.kind.Allows x.2 := by
  have hfield : ∀ x ∈ other, x.1 ∈ given.map Prod.fst := fun x hx => hfields.mem_iff.mp (List.mem_map_of_mem hx)
  constructor
  · intro h x hx
    obtain ⟨hgiven, hkind⟩ := h.each x hx
    exact ⟨(givenBy_spelled_iff hapart hspell (hfield x hx)).mp hgiven, hkind⟩
  · intro h
    constructor
    · intro x hx
      obtain ⟨hmem, hkind⟩ := h x hx
      exact ⟨(givenBy_spelled_iff hapart hspell (hfield x hx)).mpr hmem, hkind⟩
    · intro key hkey
      rw [Given.keys_spelled] at hkey
      obtain ⟨y, hy, rfl⟩ := List.mem_map.mp hkey
      obtain ⟨x, hx, hsame⟩ := List.mem_map.mp (hfields.mem_iff.mpr (List.mem_map_of_mem hy))
      exact ⟨x, hx, hsame ▸ hspell y hy⟩

end

/-! ## Requests -/

/-- What makes the wire form of a request with certain fields its normal form. -/
structure NormalForm {α : Type} (fields : List Field) (read : Json → Checked α) (write : α → Json) : Prop where
  /-- An object is read exactly if it holds a value for every field and nothing else. -/
  accepted : ∀ m : Members Empty, (∃ r, read (.object m) = .ok r) ↔ ∃ given : Given, given.map Prod.fst = fields ∧ Holds m given
  /-- The wire form has the names of the fields on the wire as keys, in their order, and the values that were given. -/
  wire : ∀ (m : Members Empty) (r : α), read (.object m) = .ok r → ∃ given : Given, given.map Prod.fst = fields ∧
    (∀ x ∈ given, x.1.GivenBy m x.2) ∧ write r = .object (given.spelled Field.wire)
  /-- The wire form is read as the request that was written. -/
  again : ∀ (m : Members Empty) (r : α), read (.object m) = .ok r → read (write r) = .ok r
  /-- Neither the names under which values are listed nor their order matter. -/
  alike : ∀ given given' : Given, (given.map Prod.fst).Perm fields → given.Perm given' →
    ∀ spell spell' : Field → Text, (∀ f ∈ fields, f.Spells (spell f)) → (∀ f ∈ fields, f.Spells (spell' f)) →
    ∀ r, read (.object (given.spelled spell)) = .ok r ↔ read (.object (given'.spelled spell')) = .ok r
  /-- No object is read with a key that is not a name of a field. -/
  unknown : ∀ m : Members Empty, ∀ key ∈ m.keys, (∀ f ∈ fields, ¬ f.Spells key) → (read (.object m)).violations ≠ []
  /-- No object is read that lacks a field. -/
  missing : ∀ m : Members Empty, ∀ f ∈ fields, f.wire ∉ m.keys → f.name ∉ m.keys → (read (.object m)).violations ≠ []
  /-- No object is read with a value of another kind than its field asks for. -/
  kind : ∀ m : Members Empty, ∀ f ∈ fields, ∀ key v, f.Spells key → m.get? key = some v → ¬ f.kind.Allows v →
    (read (.object m)).violations ≠ []

/-- A request is read from the objects that hold its values, and its wire form lists them. -/
structure ReadBy {α : Type} (fields : List Field) (given : α → Given) (read : Json → Checked α) (write : α → Json) :
    Prop where
  apart : fields.Pairwise Field.Apart
  fields_given : ∀ r, (given r).map Prod.fst = fields
  exists_given : ∀ values : Given, values.map Prod.fst = fields → (∀ x ∈ values, x.1.kind.Allows x.2) →
    ∃ r, given r = values
  read_iff : ∀ m r, read (.object m) = .ok r ↔ Holds m (given r)
  write_eq : ∀ r, write r = .object ((given r).spelled Field.wire)

theorem Checked.violations_ne_nil_iff {α : Type} {c : Checked α} : c.violations ≠ [] ↔ ∀ a, c ≠ .ok a := by
  cases c <;> simp [Checked.violations]

namespace ReadBy

variable {α : Type} {fields : List Field} {given : α → Given} {read : Json → Checked α} {write : α → Json}
  (h : ReadBy fields given read write)

include h in
theorem read_spelled_iff {values : Given} (hvalues : (values.map Prod.fst).Perm fields) {spell : Field → Text}
    (hspell : ∀ f ∈ fields, f.Spells (spell f)) {r : α} :
    read (.object (values.spelled spell)) = .ok r ↔ ∀ x ∈ given r, x ∈ values ∧ x.1.kind.Allows x.2 := by
  have hapart : (values.map Prod.fst).Pairwise Field.Apart := hvalues.symm.pairwise h.apart Field.Apart.symm
  have hspells : ∀ x ∈ values, x.1.Spells (spell x.1) :=
    fun x hx => hspell x.1 (hvalues.mem_iff.mp (List.mem_map_of_mem hx))
  have hfields : ((given r).map Prod.fst).Perm (values.map Prod.fst) := by
    rw [h.fields_given r]
    exact hvalues.symm
  rw [h.read_iff, holds_spelled_iff hapart hspells hfields]

include h in
/-- What is read of a field. -/
theorem exists_read {m : Members Empty} {r : α} (hread : read (.object m) = .ok r) {f : Field} (hf : f ∈ fields) :
    ∃ v, f.GivenBy m v ∧ f.kind.Allows v := by
  rw [← h.fields_given r] at hf
  obtain ⟨x, hx, rfl⟩ := List.mem_map.mp hf
  exact ⟨x.2, ((h.read_iff m r).mp hread).each x hx⟩

include h in
theorem normalForm : NormalForm fields read write where
  accepted := by
    intro m
    constructor
    · intro hread
      obtain ⟨r, hread⟩ := hread
      exact ⟨given r, h.fields_given r, (h.read_iff m r).mp hread⟩
    · intro hholds
      obtain ⟨values, hvalues, hholds⟩ := hholds
      obtain ⟨r, rfl⟩ := h.exists_given values hvalues fun x hx => (hholds.each x hx).2
      exact ⟨r, (h.read_iff m r).mpr hholds⟩
  wire := by
    intro m r hread
    exact ⟨given r, h.fields_given r, fun x hx => (((h.read_iff m r).mp hread).each x hx).1, h.write_eq r⟩
  again := by
    intro m r hread
    have hfields : ((given r).map Prod.fst).Perm fields := by rw [h.fields_given r]
    rw [h.write_eq r, h.read_spelled_iff hfields fun f _ => Or.inl rfl]
    intro x hx
    exact ⟨hx, (((h.read_iff m r).mp hread).each x hx).2⟩
  alike := by
    intro values values' hfields hperm spell spell' hspell hspell' r
    have hfields' : (values'.map Prod.fst).Perm fields := (hperm.symm.map Prod.fst).trans hfields
    rw [h.read_spelled_iff hfields hspell, h.read_spelled_iff hfields' hspell']
    simp only [hperm.mem_iff]
  unknown := by
    intro m key hkey hnone
    rw [Checked.violations_ne_nil_iff]
    intro r hread
    obtain ⟨x, hx, hspells⟩ := ((h.read_iff m r).mp hread).known key hkey
    refine hnone x.1 ?_ hspells
    rw [← h.fields_given r]
    exact List.mem_map_of_mem hx
  missing := by
    intro m f hf hwire hname
    rw [Checked.violations_ne_nil_iff]
    intro r hread
    obtain ⟨v, ⟨key, hkey, hget, -⟩, -⟩ := h.exists_read hread hf
    have hmem : key ∈ m.keys := List.mem_map_of_mem (Members.mem_of_get? hget)
    rcases hkey with rfl | rfl
    · exact hwire hmem
    · exact hname hmem
  kind := by
    intro m f hf key v hkey hget hkind
    rw [Checked.violations_ne_nil_iff]
    intro r hread
    obtain ⟨w, ⟨key', hkey', hget', honly⟩, hallows⟩ := h.exists_read hread hf
    have hmem : key ∈ m.keys := List.mem_map_of_mem (Members.mem_of_get? hget)
    rw [← honly key hmem hkey, hget] at hget'
    exact hkind (Option.some.inj hget' ▸ hallows)

end ReadBy

/-! ## The three requests -/

namespace Field

def baseUrl : Field := ⟨"baseUrl", "base_url", .text⟩

def token : Field := ⟨"token", "token", .text⟩

def mode : Field := ⟨"mode", "mode", .text⟩

def serverId : Field := ⟨"serverId", "server_id", .text⟩

def adminApiKey : Field := ⟨"adminApiKey", "admin_api_key", .text⟩

def disguise : Field := ⟨"disguise", "disguise", .object⟩

theorem spelled_of_one_name {f : Field} (h : f.wire = f.name) (m : Members Empty) : f.spelled m = f.name := by
  rw [spelled, Shape.spelling, h, ite_self]

end Field

section

variable {m : Members Empty} {key : Text}

theorem required_text_eq_ok_iff {t : Text} :
    Shape.required m key Rule.text = .ok t ↔ m.get? key = some (.str t) := by
  simp only [Shape.required_eq_ok_iff, Rule.text_eq_ok_iff, exists_eq_right]

theorem required_object_eq_ok_iff {o : Members Empty} :
    Shape.required m key Rule.object = .ok o ↔ m.get? key = some (.object o) := by
  simp only [Shape.required_eq_ok_iff, Rule.object_eq_ok_iff, exists_eq_right]

/-- A closed record is read from the objects that hold the values of its fields. -/
theorem closed_eq_ok_iff_holds {α : Type} {used : List Text} {checks : Checked α} {r : α} {fields : List Field}
    {given : Given} (hfields : given.map Prod.fst = fields) (hapart : fields.Pairwise Field.Apart)
    (hwritten : ∀ f ∈ fields, f.wire.toChars?.isSome = true ∧ f.name.toChars?.isSome = true)
    (hused : used = given.map fun x => x.1.spelled m)
    (hchecks : checks = .ok r ↔ ∀ x ∈ given, m.get? (x.1.spelled m) = some x.2 ∧ x.1.kind.Allows x.2) :
    Shape.closed m used checks = .ok r ↔ Holds m given := by
  subst hfields
  have hnames : ∀ x ∈ given, ∀ key, x.1.Spells key → key.toChars?.isSome = true := by
    intro x hx key hkey
    obtain ⟨hwire, hname⟩ := hwritten x.1 (List.mem_map_of_mem hx)
    rcases hkey with rfl | rfl
    · exact hwire
    · exact hname
  rw [Shape.closed_eq_ok_iff, holds_iff hapart hnames, hchecks, hused]

end

/-- The first of some values, which are of the kinds that their fields ask for. -/
theorem exists_first {f : Field} {fields : List Field} {values : Given} (hvalues : values.map Prod.fst = f :: fields)
    (hkinds : ∀ x ∈ values, x.1.kind.Allows x.2) :
    ∃ v rest, values = (f, v) :: rest ∧ f.kind.Allows v ∧ rest.map Prod.fst = fields ∧
      ∀ x ∈ rest, x.1.kind.Allows x.2 := by
  obtain ⟨x, rest, rfl, rfl, hrest⟩ := List.map_eq_cons_iff.mp hvalues
  obtain ⟨hkind, hkinds⟩ := List.forall_mem_cons.mp hkinds
  exact ⟨x.2, rest, rfl, hkind, hrest, hkinds⟩

namespace ImportRequest

def fields : List Field := [.baseUrl, .token]

def given (r : ImportRequest) : Given := [(.baseUrl, .str r.baseUrl), (.token, .str r.token)]

theorem readBy : ReadBy fields given ofJson toJson where
  apart := by decide
  fields_given _ := rfl
  exists_given := by
    intro values hvalues hkinds
    obtain ⟨_, _, rfl, ⟨b, rfl⟩, hvalues, hkinds⟩ := exists_first hvalues hkinds
    obtain ⟨_, _, rfl, ⟨t, rfl⟩, hvalues, -⟩ := exists_first hvalues hkinds
    rw [List.map_eq_nil_iff.mp hvalues]
    exact ⟨⟨b, t⟩, rfl⟩
  read_iff := by
    intro m r
    have htoken : Field.token.spelled m = "token" := Field.spelled_of_one_name rfl m
    have hfields : (given r).map Prod.fst = fields := rfl
    refine closed_eq_ok_iff_holds hfields (by decide) (by decide) ?_ ?_
    · simp only [given, List.map_cons, List.map_nil, htoken]
      rfl
    · simp only [Checked.seq_eq_ok_iff, Checked.map_eq_ok_iff, Shape.requiredAs, required_text_eq_ok_iff, given,
        List.forall_mem_cons, htoken]
      constructor
      · intro h
        obtain ⟨_, t, ⟨b, hb, rfl⟩, ht, rfl⟩ := h
        exact ⟨⟨hb, b, rfl⟩, ⟨ht, t, rfl⟩, nofun⟩
      · intro h
        obtain ⟨⟨hb, -⟩, ⟨ht, -⟩, -⟩ := h
        exact ⟨_, r.token, ⟨r.baseUrl, hb, rfl⟩, ht, rfl⟩
  write_eq _ := rfl

end ImportRequest

namespace ModeRequest

def fields : List Field := [.mode]

def given (r : ModeRequest) : Given := [(.mode, .str r.mode)]

theorem readBy : ReadBy fields given ofJson toJson where
  apart := by decide
  fields_given _ := rfl
  exists_given := by
    intro values hvalues hkinds
    obtain ⟨_, _, rfl, ⟨t, rfl⟩, hvalues, -⟩ := exists_first hvalues hkinds
    rw [List.map_eq_nil_iff.mp hvalues]
    exact ⟨⟨t⟩, rfl⟩
  read_iff := by
    intro m r
    have hmode : Field.mode.spelled m = "mode" := Field.spelled_of_one_name rfl m
    have hfields : (given r).map Prod.fst = fields := rfl
    refine closed_eq_ok_iff_holds hfields (by decide) (by decide) ?_ ?_
    · simp only [given, List.map_cons, List.map_nil, hmode]
    · simp only [Checked.map_eq_ok_iff, required_text_eq_ok_iff, given, List.forall_mem_cons, hmode]
      constructor
      · intro h
        obtain ⟨t, ht, rfl⟩ := h
        exact ⟨⟨ht, t, rfl⟩, nofun⟩
      · intro h
        exact ⟨r.mode, h.1.1, rfl⟩
  write_eq _ := rfl

end ModeRequest

namespace DisguiseRequest

def fields : List Field := [.baseUrl, .serverId, .adminApiKey, .disguise]

def given (r : DisguiseRequest) : Given :=
  [(.baseUrl, .str r.baseUrl), (.serverId, .str r.serverId), (.adminApiKey, .str r.adminApiKey),
    (.disguise, .object r.disguise)]

theorem readBy : ReadBy fields given ofJson toJson where
  apart := by decide
  fields_given _ := rfl
  exists_given := by
    intro values hvalues hkinds
    obtain ⟨_, _, rfl, ⟨b, rfl⟩, hvalues, hkinds⟩ := exists_first hvalues hkinds
    obtain ⟨_, _, rfl, ⟨s, rfl⟩, hvalues, hkinds⟩ := exists_first hvalues hkinds
    obtain ⟨_, _, rfl, ⟨k, rfl⟩, hvalues, hkinds⟩ := exists_first hvalues hkinds
    obtain ⟨_, _, rfl, ⟨o, rfl⟩, hvalues, -⟩ := exists_first hvalues hkinds
    rw [List.map_eq_nil_iff.mp hvalues]
    exact ⟨⟨b, s, k, o⟩, rfl⟩
  read_iff := by
    intro m r
    have hdisguise : Field.disguise.spelled m = "disguise" := Field.spelled_of_one_name rfl m
    have hfields : (given r).map Prod.fst = fields := rfl
    refine closed_eq_ok_iff_holds hfields (by decide) (by decide) ?_ ?_
    · simp only [given, List.map_cons, List.map_nil, hdisguise]
      rfl
    · simp only [Checked.seq_eq_ok_iff, Checked.map_eq_ok_iff, Shape.requiredAs, required_text_eq_ok_iff,
        required_object_eq_ok_iff, given, List.forall_mem_cons, hdisguise]
      constructor
      · intro h
        obtain ⟨_, o, ⟨_, k, ⟨_, s, ⟨b, hb, rfl⟩, hs, rfl⟩, hk, rfl⟩, ho, rfl⟩ := h
        exact ⟨⟨hb, b, rfl⟩, ⟨hs, s, rfl⟩, ⟨hk, k, rfl⟩, ⟨ho, o, rfl⟩, nofun⟩
      · intro h
        obtain ⟨⟨hb, -⟩, ⟨hs, -⟩, ⟨hk, -⟩, ⟨ho, -⟩, -⟩ := h
        exact ⟨_, r.disguise, ⟨_, r.adminApiKey, ⟨_, r.serverId, ⟨r.baseUrl, hb, rfl⟩, hs, rfl⟩, hk, rfl⟩, ho, rfl⟩
  write_eq _ := rfl

end DisguiseRequest

/-- The wire forms of the three requests are their normal forms. An object is read exactly if it has a value of the
right kind for every field, under the name on the wire or the name for callers, and no other keys; neither the choice of
the names nor the order matters. The wire form lists the values as they were given under the names on the wire, in the
order of the fields, and is read as the same request. -/
theorem requests_have_normal_forms :
    NormalForm ImportRequest.fields ImportRequest.ofJson ImportRequest.toJson ∧
      NormalForm ModeRequest.fields ModeRequest.ofJson ModeRequest.toJson ∧
      NormalForm DisguiseRequest.fields DisguiseRequest.ofJson DisguiseRequest.toJson :=
  ⟨ImportRequest.readBy.normalForm, ModeRequest.readBy.normalForm, DisguiseRequest.readBy.normalForm⟩

/-- Names of both sorts in another order: the wire form has those on the wire and keeps what is inside the disguise. A
number in place of a text is not read. -/
theorem requests_have_normal_forms_mixed :
    (∃ r, DisguiseRequest.ofJson (.object [("disguise", .object [("sni", .str "b"), ("dest", .null)]),
        ("server_id", .str "s"), ("adminApiKey", .str "k"), ("base_url", .str "u")]) = .ok r ∧
      DisguiseRequest.toJson r = .object [("baseUrl", .str "u"), ("serverId", .str "s"), ("adminApiKey", .str "k"),
        ("disguise", .object [("sni", .str "b"), ("dest", .null)])] ∧
      DisguiseRequest.ofJson (DisguiseRequest.toJson r) = .ok r) ∧
    (ModeRequest.ofJson (.object [("mode", .int 1)])).violations ≠ [] := by
  obtain ⟨-, hmode, hdisguise⟩ := requests_have_normal_forms
  constructor
  · have hread : DisguiseRequest.ofJson (.object [("disguise", .object [("sni", .str "b"), ("dest", .null)]),
        ("server_id", .str "s"), ("adminApiKey", .str "k"), ("base_url", .str "u")]) =
          .ok ⟨"u", "s", "k", [("sni", .str "b"), ("dest", .null)]⟩ := rfl
    exact ⟨_, hread, rfl, hdisguise.again _ _ hread⟩
  · exact hmode.kind _ .mode List.mem_cons_self "mode" (.int 1) (Or.inl rfl) rfl nofun

end AgentBridge
