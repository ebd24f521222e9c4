import Mathlib.Algebra.Order.Field.Rat
import QueueBench.Document
import QueueBench.Proofs.Number.Spelling

/-! # Scalars of JSON

The values of JSON texts, and the texts of those values that hold no others: words, numbers and
strings. Each rule gives the text with everything that follows it, so that where a scalar ends is
part of what is said. A text starts with one scalar at most. -/
namespace QueueBench

inductive Json where
  | null
  | boolean (b : Bool)
  | number (value : ℚ)
  | string (content : String)
  | array (items : List Json)
  | object (fields : List (String × Json))

namespace Json

open Number (Digits)
open Number.Numeral (ExponentText MagnitudeText Text)

variable {cs cs' ds es u u' r r' s s' : List Char} {c c' : Char} {n n' : ℕ} {q q' : ℚ}
  {v v' : Json}

section Strings

def hexDigit? (c : Char) : Option ℕ :=
  if c.isDigit then some (c.toNat - '0'.toNat)
  else if 'a' ≤ c ∧ c ≤ 'f' then some (c.toNat - 'a'.toNat + 10)
  else if 'A' ≤ c ∧ c ≤ 'F' then some (c.toNat - 'A'.toNat + 10)
  else none

def codeUnit? : List Char → Option ℕ
  | [a, b, c, d] => do
    return (((← hexDigit? a) * 16 + (← hexDigit? b)) * 16 + (← hexDigit? c)) * 16 + (← hexDigit? d)
  | _ => none

def shortEscapes : List (Char × Char) :=
  [('"', '"'), ('\\', '\\'), ('/', '/'), ('b', Char.ofNat 0x08), ('f', Char.ofNat 0x0C),
    ('n', '\n'), ('r', '\r'), ('t', '\t')]

/-- What may follow a backslash. A character beyond sixteen bits has a pair of numbers, from the
two ranges that stand for no character by themselves. -/
inductive Escape : List Char → Char → Prop
  | short {e c : Char} : (e, c) ∈ shortEscapes → Escape [e] c
  | code {ds : List Char} {n : ℕ} : codeUnit? ds = some n → (n < 0xD800 ∨ 0xDFFF < n) →
      Escape ('u' :: ds) (Char.ofNat n)
  | pair {ds es : List Char} {high low : ℕ} :
      codeUnit? ds = some high → 0xD800 ≤ high → high < 0xDC00 →
      codeUnit? es = some low → 0xDC00 ≤ low → low < 0xE000 →
      Escape ('u' :: (ds ++ '\\' :: 'u' :: es))
        (Char.ofNat (0x10000 + (high - 0xD800) * 0x400 + (low - 0xDC00)))

inductive Piece : List Char → Char → Prop
  | plain {c : Char} : 0x20 ≤ c.toNat → c ≠ '"' → c ≠ '\\' → Piece [c] c
  | escaped {u : List Char} {c : Char} : Escape u c → Piece ('\\' :: u) c

/-- What follows an opening quotation mark: the content up to the closing one, and the rest. -/
inductive Quoted : List Char → List Char → List Char → Prop
  | close {cs r : List Char} : cs = '"' :: r → Quoted cs [] r
  | piece {cs u r r' s : List Char} {c : Char} : cs = u ++ r → Piece u c → Quoted r s r' →
      Quoted cs (c :: s) r'

theorem length_of_codeUnit? (h : codeUnit? ds = some n) : ds.length = 4 := by
  unfold codeUnit? at h
  split at h
  · rfl
  · cases h

/-- Digits of one length end at the same place. -/
theorem codeUnit?_append_inj (h : codeUnit? ds = some n) (h' : codeUnit? es = some n')
    (he : ds ++ r = es ++ r') : n = n' ∧ r = r' := by
  have hlength := (length_of_codeUnit? h).trans (length_of_codeUnit? h').symm
  obtain ⟨rfl, rfl⟩ := List.append_inj he hlength
  exact ⟨Option.some.inj (h.symm.trans h'), rfl⟩

theorem shortEscapes_inj {e : Char} (h : (e, c) ∈ shortEscapes) (h' : (e, c') ∈ shortEscapes) :
    c = c' := by
  have hall : ∀ p ∈ shortEscapes, ∀ p' ∈ shortEscapes, p.1 = p'.1 → p.2 = p'.2 := by decide
  exact hall _ h _ h' rfl

theorem not_mem_shortEscapes : ('u', c) ∉ shortEscapes := by
  have hall : ∀ p ∈ shortEscapes, p.1 ≠ 'u' := by decide
  exact fun h => hall _ h rfl

theorem Escape.append_inj (h : Escape u c) (h' : Escape u' c') (he : u ++ r = u' ++ r') :
    c = c' ∧ r = r' := by
  cases h with
  | short hm => cases h' with
    | short hm' =>
      obtain ⟨rfl, rfl⟩ := List.cons_eq_cons.mp he
      exact ⟨shortEscapes_inj hm hm', rfl⟩
    | code | pair =>
      obtain ⟨rfl, -⟩ := List.cons_eq_cons.mp he
      exact (not_mem_shortEscapes hm).elim
  | code hn hs => cases h' with
    | short hm =>
      obtain ⟨rfl, -⟩ := List.cons_eq_cons.mp he
      exact (not_mem_shortEscapes hm).elim
    | code hn' =>
      obtain ⟨rfl, rfl⟩ := codeUnit?_append_inj hn hn' (List.tail_eq_of_cons_eq he)
      exact ⟨rfl, rfl⟩
    | pair hn' =>
      -- A number from one of the two ranges stands for no character by itself.
      rw [List.cons_append, List.cons_append, List.append_assoc] at he
      obtain ⟨rfl, -⟩ := codeUnit?_append_inj hn hn' (List.tail_eq_of_cons_eq he)
      omega
  | pair hn _ _ hm => cases h' with
    | short hm =>
      obtain ⟨rfl, -⟩ := List.cons_eq_cons.mp he
      exact (not_mem_shortEscapes hm).elim
    | code hn' =>
      rw [List.cons_append, List.cons_append, List.append_assoc] at he
      obtain ⟨rfl, -⟩ := codeUnit?_append_inj hn hn' (List.tail_eq_of_cons_eq he)
      omega
    | pair hn' _ _ hm' =>
      rw [List.cons_append, List.cons_append, List.append_assoc, List.append_assoc] at he
      obtain ⟨rfl, he⟩ := codeUnit?_append_inj hn hn' (List.tail_eq_of_cons_eq he)
      have he := List.tail_eq_of_cons_eq (List.tail_eq_of_cons_eq he)
      obtain ⟨rfl, rfl⟩ := codeUnit?_append_inj hm hm' he
      exact ⟨rfl, rfl⟩

theorem Piece.head (h : Piece u c) : ∃ d ds, u = d :: ds ∧ d ≠ '"' := by
  cases h with
  | plain _ hq _ => exact ⟨_, _, rfl, hq⟩
  | escaped => exact ⟨_, _, rfl, by decide⟩

theorem Piece.append_inj (h : Piece u c) (h' : Piece u' c') (he : u ++ r = u' ++ r') :
    c = c' ∧ r = r' := by
  cases h with
  | plain _ _ hb => cases h' with
    | plain => exact List.cons_eq_cons.mp he
    | escaped => exact (hb (List.head_eq_of_cons_eq he)).elim
  | escaped h => cases h' with
    | plain _ _ hb => exact (hb (List.head_eq_of_cons_eq he).symm).elim
    | escaped h' => exact h.append_inj h' (List.tail_eq_of_cons_eq he)

theorem Quoted.unique (h : Quoted cs s r) (h' : Quoted cs s' r') : s = s' ∧ r = r' := by
  induction h generalizing s' with
  | close he =>
    cases h' with
    | close he' => exact ⟨rfl, (List.cons.inj (he.symm.trans he')).2⟩
    | piece he' hp =>
      obtain ⟨d, ds, rfl, hd⟩ := hp.head
      exact (hd (List.cons.inj (he'.symm.trans he)).1).elim
  | piece he hp _ ih =>
    cases h' with
    | close he' =>
      obtain ⟨d, ds, rfl, hd⟩ := hp.head
      exact (hd (List.cons.inj (he.symm.trans he')).1).elim
    | piece he' hp' hq' =>
      obtain ⟨rfl, rfl⟩ := hp.append_inj hp' (he.symm.trans he')
      obtain ⟨rfl, rfl⟩ := ih hq'
      exact ⟨rfl, rfl⟩

end Strings

section Numbers

/-- A single digit, or digits that no zero leads. -/
structure Whole (ds : List Char) : Prop extends Digits ds where
  lead : ds.head? = some '0' → ds = ['0']

inductive Unsigned : List Char → ℚ → Prop
  | whole {ds es : List Char} {e : ℤ} : Whole ds → ExponentText es e →
      Unsigned (ds ++ es) (Nat.ofDigitChars 10 ds 0 * 10 ^ e)
  | pointed {ds fs es : List Char} {e : ℤ} : Whole ds → Digits fs → ExponentText es e →
      Unsigned (ds ++ '.' :: (fs ++ es))
        (Nat.ofDigitChars 10 (ds ++ fs) 0 * 10 ^ (e - fs.length))

inductive NumberText : List Char → ℚ → Prop
  | bare {cs : List Char} {q : ℚ} : Unsigned cs q → NumberText cs q
  | minus {cs : List Char} {q : ℚ} : Unsigned cs q → NumberText ('-' :: cs) (-q)

def isNumberChar (c : Char) : Bool := c.isDigit || "+-.eE".toList.contains c

def Stops (r : List Char) : Prop := ∀ c ∈ r.head?, isNumberChar c = false

theorem isNumberChar_of_digits (hd : Digits ds) : ∀ c ∈ ds, isNumberChar c := by
  intro c hc
  rw [isNumberChar, hd.isDigit c hc, Bool.true_or]

theorem isNumberChar_of_exponent {e : ℤ} (h : ExponentText es e) : ∀ c ∈ es, isNumberChar c := by
  have hmark : ∀ {mark : Char}, mark = 'e' ∨ mark = 'E' → isNumberChar mark := by
    rintro mark (rfl | rfl) <;> rfl
  cases h with
  | absent => nofun
  | bare hm hd => exact List.forall_mem_cons.mpr ⟨hmark hm, isNumberChar_of_digits hd⟩
  | plus hm hd | minus hm hd =>
    refine List.forall_mem_cons.mpr ⟨hmark hm, ?_⟩
    exact List.forall_mem_cons.mpr ⟨rfl, isNumberChar_of_digits hd⟩

theorem isNumberChar_of_unsigned (h : Unsigned cs q) : ∀ c ∈ cs, isNumberChar c := by
  cases h with
  | whole hw he =>
    exact List.forall_mem_append.mpr
      ⟨isNumberChar_of_digits hw.toDigits, isNumberChar_of_exponent he⟩
  | pointed hw hf he =>
    have hrest := List.forall_mem_append.mpr
      ⟨isNumberChar_of_digits hf, isNumberChar_of_exponent he⟩
    exact List.forall_mem_append.mpr
      ⟨isNumberChar_of_digits hw.toDigits, List.forall_mem_cons.mpr ⟨rfl, hrest⟩⟩

theorem NumberText.isNumberChar (h : NumberText cs q) : ∀ c ∈ cs, Json.isNumberChar c := by
  cases h with
  | bare h => exact isNumberChar_of_unsigned h
  | minus h => exact List.forall_mem_cons.mpr ⟨rfl, isNumberChar_of_unsigned h⟩

/-- The text without its sign is the text of a numeral, which has one value only. -/
theorem Unsigned.magnitudeText (h : Unsigned cs q) (negative : Bool) : ∃ n e,
    MagnitudeText negative cs (.finite negative n e) ∧ q = n * 10 ^ e := by
  cases h with
  | whole hw he => exact ⟨_, _, .whole hw.toDigits he, rfl⟩
  | pointed hw hf he => exact ⟨_, _, .pointed (hw.toDigits.append hf.isDigit) he, rfl⟩

theorem NumberText.text (h : NumberText cs q) : ∃ negative n e,
    Text cs (.finite negative n e) ∧
      q = if negative then -((n : ℚ) * 10 ^ e) else (n : ℚ) * 10 ^ e := by
  cases h with
  | bare h =>
    obtain ⟨n, e, hm, rfl⟩ := h.magnitudeText false
    exact ⟨_, n, e, .bare hm, rfl⟩
  | minus h =>
    obtain ⟨n, e, hm, rfl⟩ := h.magnitudeText true
    exact ⟨_, n, e, .minus hm, rfl⟩

theorem NumberText.unique (h : NumberText cs q) (h' : NumberText cs q') : q = q' := by
  obtain ⟨_, _, _, ht, rfl⟩ := h.text
  obtain ⟨_, _, _, ht', rfl⟩ := h'.text
  cases ht.unique ht'
  rfl

theorem Unsigned.head (h : Unsigned cs q) : ∃ c ds, cs = c :: ds ∧ c.isDigit := by
  have hd : ∀ {ds es : List Char}, Digits ds → ∃ c fs, ds ++ es = c :: fs ∧ c.isDigit := by
    intro ds es h
    obtain ⟨c, ds, rfl⟩ := List.exists_cons_of_ne_nil h.ne_nil
    exact ⟨c, _, rfl, h.isDigit c List.mem_cons_self⟩
  cases h with
  | whole hw _ => exact hd hw.toDigits
  | pointed hw _ _ => exact hd hw.toDigits

theorem NumberText.head (h : NumberText cs q) :
    ∃ c ds, cs = c :: ds ∧ (c = '-' ∨ c.isDigit) := by
  cases h with
  | bare h =>
    obtain ⟨c, ds, rfl, hc⟩ := h.head
    exact ⟨c, ds, rfl, Or.inr hc⟩
  | minus => exact ⟨_, _, rfl, Or.inl rfl⟩

/-- A number ends at the first character that is none of a number. -/
theorem NumberText.append_inj (h : NumberText cs q) (h' : NumberText cs' q')
    (hr : Stops r) (hr' : Stops r') (he : cs ++ r = cs' ++ r') : q = q' ∧ r = r' := by
  have hspan : ∀ {ds r : List Char}, (∀ c ∈ ds, Json.isNumberChar c) → Stops r →
      (ds ++ r).takeWhile Json.isNumberChar = ds := by
    intro ds r hd hr
    rw [List.takeWhile_append_of_pos hd]
    cases r with
    | nil => simp
    | cons c r => simp [hr c rfl]
  have hcs := hspan h'.isNumberChar hr'
  rw [← he, hspan h.isNumberChar hr] at hcs
  subst hcs
  exact ⟨h.unique h', List.append_cancel_left he⟩

end Numbers

def words : List (List Char × Json) :=
  [("null".toList, null), ("true".toList, boolean true), ("false".toList, boolean false)]

inductive Scalar : List Char → Json → List Char → Prop
  | word {cs w r : List Char} {v : Json} : cs = w ++ r → (w, v) ∈ words → Scalar cs v r
  | number {cs ds r : List Char} {q : ℚ} : cs = ds ++ r → NumberText ds q → Stops r →
      Scalar cs (number q) r
  | string {cs cs' s r : List Char} : cs = '"' :: cs' → Quoted cs' s r →
      Scalar cs (string (String.ofList s)) r

inductive Kind where
  | word
  | number
  | string
  | array
  | object

def kind : Json → Kind
  | null | boolean _ => .word
  | number _ => .number
  | string _ => .string
  | array _ => .array
  | object _ => .object

def Kind.ofLead? (c : Char) : Option Kind :=
  if c = '"' then some string
  else if c = '-' ∨ c.isDigit then some number
  else if c = '[' then some array
  else if c = Document.openRecord then some object
  else if c = 'n' ∨ c = 't' ∨ c = 'f' then some word
  else none

def Leads (cs : List Char) (k : Kind) : Prop := ∃ c ds, cs = c :: ds ∧ Kind.ofLead? c = some k

theorem Leads.ofLead?_eq {k : Kind} (h : Leads (c :: cs) k) : Kind.ofLead? c = some k := by
  obtain ⟨_, _, he, hc⟩ := h
  rwa [← List.head_eq_of_cons_eq he] at hc

theorem Leads.unique {k k' : Kind} (h : Leads cs k) (h' : Leads cs k') : k = k' := by
  obtain ⟨c, ds, rfl, hc⟩ := h
  exact Option.some.inj (hc.symm.trans h'.ofLead?_eq)

theorem lead_of_mem_words {w : List Char} (h : (w, v) ∈ words) : Leads w v.kind := by
  simp only [words, List.mem_cons, Prod.mk.injEq, List.not_mem_nil, or_false] at h
  rcases h with ⟨rfl, rfl⟩ | ⟨rfl, rfl⟩ | ⟨rfl, rfl⟩ <;> exact ⟨_, _, rfl, rfl⟩

theorem kind_of_mem_words {w : List Char} (h : (w, v) ∈ words) : v.kind = .word := by
  simp only [words, List.mem_cons, Prod.mk.injEq, List.not_mem_nil, or_false] at h
  rcases h with ⟨-, rfl⟩ | ⟨-, rfl⟩ | ⟨-, rfl⟩ <;> rfl

theorem words_append_inj {w w' : List Char} (h : (w, v) ∈ words) (h' : (w', v') ∈ words)
    (he : w ++ r = w' ++ r') : v = v' ∧ r = r' := by
  simp only [words, List.mem_cons, Prod.mk.injEq, List.not_mem_nil, or_false] at h h'
  rcases h with ⟨rfl, rfl⟩ | ⟨rfl, rfl⟩ | ⟨rfl, rfl⟩ <;>
    rcases h' with ⟨rfl, rfl⟩ | ⟨rfl, rfl⟩ | ⟨rfl, rfl⟩ <;>
    first
      | exact ⟨rfl, List.append_cancel_left he⟩
      | exact absurd (List.head_eq_of_cons_eq he) (by decide)

theorem Scalar.lead (h : Scalar cs v r) : Leads cs v.kind := by
  cases h with
  | word he hw =>
    obtain ⟨c, ds, rfl, hc⟩ := lead_of_mem_words hw
    exact ⟨c, _, he, hc⟩
  | number he hn =>
    obtain ⟨c, ds, rfl, hc⟩ := hn.head
    have hq : c ≠ '"' := by
      rintro rfl
      exact absurd hc (by decide)
    refine ⟨c, _, he, ?_⟩
    rw [Kind.ofLead?, if_neg hq, if_pos hc]
    rfl
  | string he => exact ⟨_, _, he, rfl⟩

theorem Scalar.unique (h : Scalar cs v r) (h' : Scalar cs v' r') : v = v' ∧ r = r' := by
  have hk := h.lead.unique h'.lead
  cases h with
  | word he hw => cases h' with
    | word he' hw' => exact words_append_inj hw hw' (he.symm.trans he')
    | number | string => cases (kind_of_mem_words hw).symm.trans hk
  | number he hn hs => cases h' with
    | word _ hw => cases hk.trans (kind_of_mem_words hw)
    | number he' hn' hs' =>
      obtain ⟨rfl, rfl⟩ := hn.append_inj hn' hs hs' (he.symm.trans he')
      exact ⟨rfl, rfl⟩
    | string => cases hk
  | string he hq => cases h' with
    | word _ hw => cases hk.trans (kind_of_mem_words hw)
    | number => cases hk
    | string he' hq' =>
      obtain rfl := List.tail_eq_of_cons_eq (he.symm.trans he')
      obtain ⟨rfl, rfl⟩ := hq.unique hq'
      exact ⟨rfl, rfl⟩

end Json

end QueueBench
