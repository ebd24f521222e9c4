import QueueBench.Proofs.Json.Scalar

/-! # Texts of JSON

The grammar of JSON texts, and the value that a text stands for. Blanks may stand around every
part; they are dropped where a part ends, so that each part starts at its own first character. No
text stands for two values. -/
namespace QueueBench.Json

open Document (openRecord closeRecord)

variable {cs r r' : List Char} {v v' : Json}

def isBlank (c : Char) : Bool := c = ' ' ∨ c = '\t' ∨ c = '\n' ∨ c = '\r'

def skip (cs : List Char) : List Char := cs.dropWhile isBlank

/-- The name of a field with its colon, up to the first character of the value. -/
def Named (cs : List Char) (name : String) (r : List Char) : Prop :=
  ∃ cs' s r' r'', cs = '"' :: cs' ∧ Quoted cs' s r' ∧ skip r' = ':' :: r'' ∧
    name = String.ofList s ∧ r = skip r''

/-- What is read: a value, or the items or fields behind an opening bracket. -/
inductive Place where
  | value
  | items
  | fields

/-- A text that starts with what is read at a place, and what follows it. -/
inductive Reads : Place → List Char → Json → List Char → Prop
  | scalar {cs r : List Char} {v : Json} : Scalar cs v r → Reads .value cs v r
  | noItems {cs cs' r : List Char} : cs = '[' :: cs' → skip cs' = ']' :: r →
      Reads .value cs (array []) r
  | items {cs cs' r : List Char} {vs : List Json} : cs = '[' :: cs' →
      Reads .items (skip cs') (array vs) r → Reads .value cs (array vs) r
  | noFields {cs cs' r : List Char} : cs = openRecord :: cs' → skip cs' = closeRecord :: r →
      Reads .value cs (object []) r
  | fields {cs cs' r : List Char} {fs : List (String × Json)} : cs = openRecord :: cs' →
      Reads .fields (skip cs') (object fs) r → Reads .value cs (object fs) r
  | lastItem {cs r r' : List Char} {v : Json} : Reads .value cs v r → skip r = ']' :: r' →
      Reads .items cs (array [v]) r'
  | nextItem {cs r r' r'' : List Char} {v : Json} {vs : List Json} : Reads .value cs v r →
      skip r = ',' :: r' → Reads .items (skip r') (array vs) r'' →
      Reads .items cs (array (v :: vs)) r''
  | lastField {cs cs' r r' : List Char} {name : String} {v : Json} : Named cs name cs' →
      Reads .value cs' v r → skip r = closeRecord :: r' → Reads .fields cs (object [(name, v)]) r'
  | nextField {cs cs' r r' r'' : List Char} {name : String} {v : Json}
      {fs : List (String × Json)} : Named cs name cs' → Reads .value cs' v r →
      skip r = ',' :: r' → Reads .fields (skip r') (object fs) r'' →
      Reads .fields cs (object ((name, v) :: fs)) r''

/-- The text is that of the value, with nothing but blanks around it. -/
def Denotes (text : List Char) (v : Json) : Prop :=
  ∃ r, Reads .value (skip text) v r ∧ skip r = []

theorem Named.unique {name name' : String} (h : Named cs name r) (h' : Named cs name' r') :
    name = name' ∧ r = r' := by
  obtain ⟨_, _, _, _, he, hq, hc, rfl, rfl⟩ := h
  obtain ⟨_, _, _, _, he', hq', hc', rfl, rfl⟩ := h'
  obtain rfl := List.tail_eq_of_cons_eq (he.symm.trans he')
  obtain ⟨rfl, rfl⟩ := hq.unique hq'
  obtain rfl := List.tail_eq_of_cons_eq (hc.symm.trans hc')
  exact ⟨rfl, rfl⟩

theorem Named.head {name : String} (h : Named cs name r) : cs.head? = some '"' := by
  obtain ⟨_, _, _, _, rfl, _⟩ := h
  rfl

/-- The first character of a value tells its kind. -/
theorem Reads.lead (h : Reads .value cs v r) : Leads cs v.kind := by
  cases h with
  | scalar hs => exact hs.lead
  | noItems he | items he | noFields he | fields he => exact ⟨_, _, he, rfl⟩

theorem Reads.kind_eq (h : Reads .value cs v r) (h' : Reads .value cs v' r') :
    v.kind = v'.kind :=
  h.lead.unique h'.lead

/-- Behind an opening bracket stands an item or the closing bracket, never both. -/
theorem Reads.items_ne_close (h : Reads .items cs v r) : cs ≠ ']' :: r' := by
  rintro rfl
  cases h with
  | lastItem h | nextItem h => cases h.lead.ofLead?_eq

theorem Reads.fields_ne_close (h : Reads .fields cs v r) : cs ≠ closeRecord :: r' := by
  rintro rfl
  cases h with
  | lastField h | nextField h => cases h.head

theorem Scalar.kind_ne (h : Scalar cs v r) : v.kind ≠ .array ∧ v.kind ≠ .object := by
  cases h with
  | word _ hw =>
    rw [kind_of_mem_words hw]
    exact ⟨nofun, nofun⟩
  | number | string => exact ⟨nofun, nofun⟩

/-- A text that starts like a scalar is read as one. -/
theorem Reads.scalar_of_kind (h : Reads .value cs v r) (ha : v.kind ≠ .array)
    (ho : v.kind ≠ .object) : Scalar cs v r := by
  cases h with
  | scalar hs => exact hs
  | noItems | items => exact (ha rfl).elim
  | noFields | fields => exact (ho rfl).elim

theorem Reads.of_array (h : Reads .value ('[' :: cs) v r) :
    v = array [] ∧ skip cs = ']' :: r ∨ Reads .items (skip cs) v r := by
  cases h with
  | scalar hs => exact (hs.kind_ne.1 (Option.some.inj hs.lead.ofLead?_eq).symm).elim
  | noItems he hc =>
    obtain rfl := List.tail_eq_of_cons_eq he
    exact Or.inl ⟨rfl, hc⟩
  | items he hi =>
    obtain rfl := List.tail_eq_of_cons_eq he
    exact Or.inr hi
  | noFields he | fields he => cases List.head_eq_of_cons_eq he

theorem Reads.of_object (h : Reads .value (openRecord :: cs) v r) :
    v = object [] ∧ skip cs = closeRecord :: r ∨ Reads .fields (skip cs) v r := by
  cases h with
  | scalar hs => exact (hs.kind_ne.2 (Option.some.inj hs.lead.ofLead?_eq).symm).elim
  | noItems he | items he => cases List.head_eq_of_cons_eq he
  | noFields he hc =>
    obtain rfl := List.tail_eq_of_cons_eq he
    exact Or.inl ⟨rfl, hc⟩
  | fields he hi =>
    obtain rfl := List.tail_eq_of_cons_eq he
    exact Or.inr hi

/-- Reading is unambiguous. -/
theorem Reads.unique {p : Place} (h : Reads p cs v r) (h' : Reads p cs v' r') :
    v = v' ∧ r = r' := by
  -- Along the first reading: the second one takes the same rule at each step.
  induction h generalizing v' r' with
  | scalar hs =>
    have hk := (Reads.scalar hs).kind_eq h'
    exact hs.unique (h'.scalar_of_kind (hk ▸ hs.kind_ne.1) (hk ▸ hs.kind_ne.2))
  | noItems he hc =>
    subst he
    rcases h'.of_array with ⟨rfl, hc'⟩ | hi'
    · exact ⟨rfl, List.tail_eq_of_cons_eq (hc.symm.trans hc')⟩
    · exact (hi'.items_ne_close hc).elim
  | items he hi ih =>
    subst he
    rcases h'.of_array with ⟨rfl, hc'⟩ | hi'
    · exact (hi.items_ne_close hc').elim
    · exact ih hi'
  | noFields he hc =>
    subst he
    rcases h'.of_object with ⟨rfl, hc'⟩ | hi'
    · exact ⟨rfl, List.tail_eq_of_cons_eq (hc.symm.trans hc')⟩
    · exact (hi'.fields_ne_close hc).elim
  | fields he hi ih =>
    subst he
    rcases h'.of_object with ⟨rfl, hc'⟩ | hi'
    · exact (hi.fields_ne_close hc').elim
    · exact ih hi'
  | lastItem _ hc ih => cases h' with
    | lastItem hv' hc' =>
      obtain ⟨rfl, rfl⟩ := ih hv'
      exact ⟨rfl, List.tail_eq_of_cons_eq (hc.symm.trans hc')⟩
    | nextItem hv' hc' =>
      obtain ⟨-, rfl⟩ := ih hv'
      cases hc.symm.trans hc'
  | nextItem _ hc _ ih ihs => cases h' with
    | lastItem hv' hc' =>
      obtain ⟨-, rfl⟩ := ih hv'
      cases hc.symm.trans hc'
    | nextItem hv' hc' hi' =>
      obtain ⟨rfl, rfl⟩ := ih hv'
      obtain rfl := List.tail_eq_of_cons_eq (hc.symm.trans hc')
      obtain ⟨hvs, rfl⟩ := ihs hi'
      obtain rfl := Json.array.inj hvs
      exact ⟨rfl, rfl⟩
  | lastField hn _ hc ih => cases h' with
    | lastField hn' hv' hc' =>
      obtain ⟨rfl, rfl⟩ := hn.unique hn'
      obtain ⟨rfl, rfl⟩ := ih hv'
      exact ⟨rfl, List.tail_eq_of_cons_eq (hc.symm.trans hc')⟩
    | nextField hn' hv' hc' =>
      obtain ⟨rfl, rfl⟩ := hn.unique hn'
      obtain ⟨-, rfl⟩ := ih hv'
      cases hc.symm.trans hc'
  | nextField hn _ hc _ ih ihs => cases h' with
    | lastField hn' hv' hc' =>
      obtain ⟨rfl, rfl⟩ := hn.unique hn'
      obtain ⟨-, rfl⟩ := ih hv'
      cases hc.symm.trans hc'
    | nextField hn' hv' hc' hi' =>
      obtain ⟨rfl, rfl⟩ := hn.unique hn'
      obtain ⟨rfl, rfl⟩ := ih hv'
      obtain rfl := List.tail_eq_of_cons_eq (hc.symm.trans hc')
      obtain ⟨hfs, rfl⟩ := ihs hi'
      obtain rfl := Json.object.inj hfs
      exact ⟨rfl, rfl⟩

theorem Denotes.unique (h : Denotes cs v) (h' : Denotes cs v') : v = v' := by
  obtain ⟨_, hr, -⟩ := h
  obtain ⟨_, hr', -⟩ := h'
  exact (hr.unique hr').1

end QueueBench.Json
