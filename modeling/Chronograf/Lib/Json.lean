/-
# JSON values and their texts

The values of JSON and a reader of texts. An escape sequence in a string is
read as the character it stands for, two that are a surrogate pair as one.
A text that is pasted between the quotes of a string (`string_pasted_iff`) is
read as itself if and only if it is plain, whatever follows.

Key definitions: `Json`, `Json.read`, `Json.Plain`.
Key theorems: `string_plain`, `string_pasted_iff`.
-/
import Mathlib.Data.List.Basic
import Mathlib.Data.Nat.Notation
import Mathlib.Data.Option.Basic

inductive Json
  | null
  | bool (b : Bool)
  | num (text : String)
  | str (s : String)
  | arr (elems : List Json)
  | obj (members : List (String × Json))

namespace Json

/-! ### The reader -/

def isSpace (c : Char) : Bool := c = ' ' || c = '\t' || c = '\n' || c = '\r'

def skip (cs : List Char) : List Char := cs.dropWhile isSpace

def hexDigit (c : Char) : Option ℕ :=
  if '0' ≤ c ∧ c ≤ '9' then some (c.toNat - '0'.toNat)
  else if 'a' ≤ c ∧ c ≤ 'f' then some (c.toNat - 'a'.toNat + 10)
  else if 'A' ≤ c ∧ c ≤ 'F' then some (c.toNat - 'A'.toNat + 10)
  else none

def hex4 (a b c d : Char) : Option ℕ := do
  return ((← hexDigit a) * 16 + (← hexDigit b)) * 256 + ((← hexDigit c) * 16 + (← hexDigit d))

/-- A character of a string: one that stands for itself or a short escape, or
the code of a long one. -/
inductive Item
  | char (c : Char)
  | unit (n : ℕ)

def escaped : Char → Option Char
  | '"' => some '"'
  | '\\' => some '\\'
  | '/' => some '/'
  | 'b' => some '\x08'
  | 'f' => some '\x0c'
  | 'n' => some '\n'
  | 'r' => some '\r'
  | 't' => some '\t'
  | _ => none

/-- The items up to the closing quote, and the text after it. -/
def items : List Char → Option (List Item × List Char)
  | [] => none
  | '"' :: cs => some ([], cs)
  | '\\' :: 'u' :: a :: b :: c :: d :: cs => do
    let n ← hex4 a b c d
    let (is, r) ← items cs
    return (.unit n :: is, r)
  | '\\' :: e :: cs => do
    let c ← escaped e
    let (is, r) ← items cs
    return (.char c :: is, r)
  | c :: cs => do
    guard (' ' ≤ c ∧ c ≠ '\\')
    let (is, r) ← items cs
    return (.char c :: is, r)

def isHigh (n : ℕ) : Bool := 0xD800 ≤ n ∧ n < 0xDC00

def isLow (n : ℕ) : Bool := 0xDC00 ≤ n ∧ n < 0xE000

/-- A surrogate on its own becomes the replacement character. -/
def unitChar (n : ℕ) : Char := if isHigh n || isLow n then '\uFFFD' else Char.ofNat n

def chars : List Item → List Char
  | [] => []
  | .char c :: is => c :: chars is
  | .unit h :: .unit l :: is =>
    if isHigh h && isLow l then Char.ofNat (0x10000 + (h - 0xD800) * 0x400 + (l - 0xDC00)) :: chars is
    else unitChar h :: chars (.unit l :: is)
  | .unit n :: is => unitChar n :: chars is

/-- The string whose opening quote has been read, and the text after it. -/
def string (cs : List Char) : Option (List Char × List Char) := (items cs).map fun (is, r) => (chars is, r)

def digits (cs : List Char) : List Char × List Char := (cs.takeWhile (·.isDigit), cs.dropWhile (·.isDigit))

def exponent (text cs : List Char) : Option (List Char × List Char) :=
  match cs with
  | e :: cs' =>
    if e = 'e' ∨ e = 'E' then
      let (sign, cs'') := match cs' with
        | '+' :: r => (['+'], r)
        | '-' :: r => (['-'], r)
        | r => ([], r)
      let (ds, r) := digits cs''
      if ds = [] then none else some (text ++ e :: sign ++ ds, r)
    else some (text, cs)
  | [] => some (text, [])

def fraction (text cs : List Char) : Option (List Char × List Char) :=
  match cs with
  | '.' :: cs' =>
    let (ds, r) := digits cs'
    if ds = [] then none else exponent (text ++ '.' :: ds) r
  | _ => exponent text cs

def number (cs : List Char) : Option (List Char × List Char) :=
  let (sign, cs) := match cs with
    | '-' :: r => (['-'], r)
    | r => ([], r)
  match cs with
  | '0' :: r => fraction (sign ++ ['0']) r
  | _ =>
    let (ds, r) := digits cs
    if ds = [] then none else fraction (sign ++ ds) r

/-- A value that is neither a string, a list nor an object. -/
def atom : List Char → Option (Json × List Char)
  | 't' :: 'r' :: 'u' :: 'e' :: r => some (.bool true, r)
  | 'f' :: 'a' :: 'l' :: 's' :: 'e' :: r => some (.bool false, r)
  | 'n' :: 'u' :: 'l' :: 'l' :: r => some (.null, r)
  | cs => (number cs).map fun (text, r) => (.num (String.ofList text), r)

/-- `sep` after an element means that there is another one, `close` that there is none. -/
def next {α : Type} (close : Char) (x : α) (more : List Char → Option (List α × List Char)) (cs : List Char) :
    Option (List α × List Char) :=
  match skip cs with
  | c :: r => if c = close then some ([x], r) else if c = ',' then (more r).map fun (xs, r) => (x :: xs, r) else none
  | [] => none

mutual

/-- The value at the beginning of the text and what follows it; `n` bounds the
nesting and the number of elements. -/
def value : ℕ → List Char → Option (Json × List Char)
  | 0, _ => none
  | n + 1, cs =>
    match skip cs with
    | '{' :: cs =>
      match skip cs with
      | '}' :: r => some (.obj [], r)
      | cs => (members n cs).map fun (ms, r) => (.obj ms, r)
    | '[' :: cs =>
      match skip cs with
      | ']' :: r => some (.arr [], r)
      | cs => (elements n cs).map fun (es, r) => (.arr es, r)
    | '"' :: cs => (string cs).map fun (s, r) => (.str (String.ofList s), r)
    | cs => atom cs

def elements : ℕ → List Char → Option (List Json × List Char)
  | 0, _ => none
  | n + 1, cs => (value n cs).bind fun (j, r) => next ']' j (elements n) r

def members : ℕ → List Char → Option (List (String × Json) × List Char)
  | 0, _ => none
  | n + 1, cs =>
    match skip cs with
    | '"' :: cs =>
      (string cs).bind fun (k, r) =>
        match skip r with
        | ':' :: r => (value n r).bind fun (j, r) => next '}' (String.ofList k, j) (members n) r
        | _ => none
    | _ => none

end

/-- The value of a text, if it is JSON. -/
def read (cs : List Char) : Option Json :=
  (value (cs.length + 1) cs).bind fun (j, r) => if skip r = [] then some j else none

/-! ### Strings that stand for themselves -/

/-- A character that stands for itself in a string. -/
def plainChar (c : Char) : Bool := ' ' ≤ c && c ≠ '"' && c ≠ '\\'

/-- Between quotes, the text stands for itself. -/
def Plain (s : List Char) : Prop := ∀ c ∈ s, plainChar c

instance (s : List Char) : Decidable (Plain s) := List.decidableBAll _ s

theorem plain_cons {c : Char} {s : List Char} : Plain (c :: s) ↔ plainChar c ∧ Plain s := List.forall_mem_cons

theorem plainChar_iff {c : Char} : plainChar c ↔ ' ' ≤ c ∧ c ≠ '"' ∧ c ≠ '\\' := by
  unfold plainChar
  rw [Bool.and_eq_true, Bool.and_eq_true, decide_eq_true_iff, decide_eq_true_iff, decide_eq_true_iff, and_assoc]

/-- A character that is not special is an item. -/
theorem items_cons {c : Char} (hq : c ≠ '"') (hb : c ≠ '\\') (cs : List Char) :
    items (c :: cs) = if ' ' ≤ c then (items cs).map fun (is, r) => (.char c :: is, r) else none := by
  rw [items.eq_5]
  · by_cases h : ' ' ≤ c
    · simp only [h, hb, ne_eq, not_false_iff, and_self, guard, if_true]
      cases items cs <;> rfl
    · simp only [h, false_and, guard, if_false]
      rfl
  · exact hq
  · exact fun _ _ _ _ _ h => absurd h hb
  · exact fun _ _ h => absurd h hb

theorem items_plain {s : List Char} (h : Plain s) (r : List Char) :
    items (s ++ '"' :: r) = some (s.map .char, r) := by
  induction s with
  | nil => rfl
  | cons c s ih =>
    obtain ⟨hc, hs⟩ := plain_cons.mp h
    obtain ⟨hle, hq, hb⟩ := plainChar_iff.mp hc
    rw [List.cons_append, items_cons hq hb, if_pos hle, ih hs]
    rfl

theorem chars_map_char (s : List Char) : chars (s.map .char) = s := by
  induction s with
  | nil => rfl
  | cons c s ih => exact congrArg (c :: ·) ih

/-- A plain string is read as itself. -/
theorem string_plain {s : List Char} (h : Plain s) (r : List Char) : string (s ++ '"' :: r) = some (s, r) := by
  rw [string, items_plain h]
  exact congrArg some (Prod.ext (chars_map_char s) rfl)

/-! ### Texts pasted between quotes -/

theorem length_chars_le (is : List Item) : (chars is).length ≤ is.length := by
  fun_induction chars is with
  | case1 => exact Nat.le_refl 0
  | case2 c is ih => exact Nat.succ_le_succ ih
  | case3 h l is hs ih =>
    rw [List.length_cons, List.length_cons, List.length_cons]
    omega
  | case4 h l is hs ih =>
    rw [List.length_cons, List.length_cons]
    omega
  | case5 n is hne ih => exact Nat.succ_le_succ ih

theorem chars_append_char (is : List Item) (c : Char) : chars (is ++ [.char c]) = chars is ++ [c] := by
  fun_induction chars is with
  | case1 => rfl
  | case2 d is ih => exact congrArg (d :: ·) ih
  | case3 h l is hs ih =>
    rw [List.cons_append, List.cons_append, chars, if_pos hs, ih]
    rfl
  | case4 h l is hs ih =>
    rw [List.cons_append, List.cons_append, chars, if_neg hs]
    exact congrArg (unitChar h :: ·) ih
  | case5 n is hne ih =>
    cases is with
    | nil => rfl
    | cons i is =>
      cases i with
      | unit l => exact absurd rfl (hne l is)
      | char d => exact congrArg (unitChar n :: ·) ih

/-- Without a backslash all items are characters, and none is a backslash. -/
theorem items_no_backslash {t r : List Char} {is : List Item} (ht : '\\' ∉ t) (h : items t = some (is, r)) :
    ∃ s : List Char, is = s.map .char ∧ '\\' ∉ s := by
  induction t generalizing is r with
  | nil => cases h
  | cons c t ih =>
    have hc : c ≠ '\\' := fun hc => ht (hc ▸ List.mem_cons_self)
    have ht : '\\' ∉ t := fun hm => ht (List.mem_cons_of_mem c hm)
    by_cases hq : c = '"'
    · subst hq
      obtain ⟨rfl, -⟩ := Prod.mk.inj (Option.some.inj h)
      exact ⟨[], rfl, List.not_mem_nil⟩
    rw [items_cons hq hc] at h
    by_cases hle : ' ' ≤ c
    · rw [if_pos hle, Option.map_eq_some_iff] at h
      obtain ⟨⟨is', r'⟩, his, heq⟩ := h
      obtain ⟨rfl, -⟩ := Prod.mk.inj heq
      obtain ⟨s, rfl, hs⟩ := ih ht his
      exact ⟨c :: s, rfl, List.not_mem_cons_of_ne_of_not_mem (Ne.symm hc) hs⟩
    · rw [if_neg hle] at h
      cases h

theorem hex4_digits {a b c d : Char} {n : ℕ} (h : hex4 a b c d = some n) : ∀ x ∈ [a, b, c, d], hexDigit x ≠ none := by
  intro x hx hnone
  cases ha : hexDigit a with
  | none => simp [hex4, ha] at h
  | some _ =>
    cases hb : hexDigit b with
    | none => simp [hex4, ha, hb] at h
    | some _ =>
      cases hc : hexDigit c with
      | none => simp [hex4, ha, hb, hc] at h
      | some _ =>
        cases hd : hexDigit d with
        | none => simp [hex4, ha, hb, hc, hd] at h
        | some _ =>
          simp only [List.mem_cons, List.not_mem_nil, or_false] at hx
          rcases hx with rfl | rfl | rfl | rfl <;> simp_all

/-- A long escape has four hexadecimal digits. -/
theorem items_unit {cs : List Char} {x : List Item × List Char} (h : items ('\\' :: 'u' :: cs) = some x) :
    ∃ a b c d cs', cs = a :: b :: c :: d :: cs' ∧ '"' ∉ [a, b, c, d] ∧
      ∃ n y, items cs' = some y ∧ x = (.unit n :: y.1, y.2) := by
  match cs, h with
  | a :: b :: c :: d :: cs', h =>
    rw [items] at h
    cases hn : hex4 a b c d with
    | none =>
      rw [hn] at h
      cases h
    | some n =>
      cases hy : items cs' with
      | none =>
        rw [hn, hy] at h
        cases h
      | some y =>
        rw [hn, hy] at h
        refine ⟨a, b, c, d, cs', rfl, ?_, n, y, hy, (Option.some.inj h).symm⟩
        exact fun hq => hex4_digits hn '"' hq rfl
  | [], h => cases h
  | [a], h => cases h
  | [a, b], h => cases h
  | [a, b, c], h => cases h

theorem items_escape {e : Char} (he : e ≠ 'u') (cs : List Char) :
    items ('\\' :: e :: cs) = (escaped e).bind fun c => (items cs).map fun (is, r) => (.char c :: is, r) := by
  rw [items.eq_4]
  · cases escaped e <;> cases items cs <;> rfl
  · intro a b c d cs' h
    exact absurd h he

/-- What the items `is` and the rest `r` can be that are read of a text `v` between
quotes with `t` after it. Either `v` is plain, or there are fewer items than
characters, or `v` ends in a backslash and the items do not. -/
def Pasted (v t : List Char) (is : List Item) (r : List Char) : Prop :=
  (Plain v ∧ r = t ∧ is.length = v.length) ∨ is.length < v.length ∨
    ∃ w is' c, v = w ++ ['\\'] ∧ is = is' ++ [.char c] ∧ c ≠ '\\'

theorem Pasted.cons {c : Char} {v t r : List Char} {is : List Item} (hc : plainChar c) (h : Pasted v t is r) :
    Pasted (c :: v) t (.char c :: is) r := by
  rcases h with ⟨hv, hr, hlen⟩ | hlt | ⟨w, is', d, rfl, rfl, hd⟩
  · exact .inl ⟨plain_cons.mpr ⟨hc, hv⟩, hr, congrArg (· + 1) hlen⟩
  · exact .inr (.inl (Nat.succ_lt_succ hlt))
  · exact .inr (.inr ⟨c :: w, .char c :: is', d, rfl, rfl, hd⟩)

theorem Pasted.escape (u : List Char) {v t r : List Char} {i : Item} {is : List Item} (hu : 1 < u.length)
    (h : Pasted v t is r) :
    Pasted (u ++ v) t (i :: is) r := by
  rcases h with ⟨-, -, hlen⟩ | hlt | ⟨w, is', d, rfl, rfl, hd⟩
  · refine .inr (.inl ?_)
    rw [List.length_cons, List.length_append]
    omega
  · refine .inr (.inl ?_)
    rw [List.length_cons, List.length_append]
    omega
  · exact .inr (.inr ⟨u ++ w, i :: is', d, (List.append_assoc u w _).symm, rfl, hd⟩)

/-- A backslash at the end of the text escapes the quote. -/
theorem pasted_backslash {t r : List Char} {is : List Item} (ht : '\\' ∉ t)
    (h : items ('\\' :: '"' :: t) = some (is, r)) : Pasted ['\\'] t is r := by
  rw [items_escape (by decide)] at h
  obtain ⟨c, hc, hmap⟩ := Option.bind_eq_some_iff.mp h
  obtain ⟨⟨is', r'⟩, his, heq⟩ := Option.map_eq_some_iff.mp hmap
  obtain ⟨rfl, -⟩ := Prod.mk.inj heq
  obtain rfl : '"' = c := Option.some.inj hc
  obtain ⟨s, rfl, hs⟩ := items_no_backslash ht his
  refine .inr (.inr ⟨[], ?_⟩)
  cases hlast : s.reverse with
  | nil => exact ⟨[], '"', rfl, by simp [List.reverse_eq_nil_iff.mp hlast], by decide⟩
  | cons d s' =>
    have hs' : s = s'.reverse ++ [d] := by rw [← List.reverse_reverse s, hlast, List.reverse_cons]
    refine ⟨.char '"' :: s'.reverse.map .char, d, rfl, by simp [hs'], ?_⟩
    exact fun hd => hs (by simp [hs', hd])

theorem quote_after {v t cs : List Char} {a b c d : Char} (h : v ++ '"' :: t = a :: b :: c :: d :: cs)
    (hq : '"' ∉ [a, b, c, d]) : ∃ v', v = a :: b :: c :: d :: v' ∧ cs = v' ++ '"' :: t := by
  simp only [List.mem_cons, List.not_mem_nil, or_false, not_or] at hq
  obtain ⟨ha, hb, hc, hd⟩ := hq
  rcases v with _ | ⟨_, _ | ⟨_, _ | ⟨_, _ | ⟨_, v'⟩⟩⟩⟩
  · exact absurd (List.cons.inj h).1 ha
  all_goals simp_all

theorem items_pasted {t r : List Char} (ht : '\\' ∉ t) : ∀ {v : List Char} {is : List Item},
    items (v ++ '"' :: t) = some (is, r) → Pasted v t is r
  | [], is, h => by
    obtain ⟨rfl, rfl⟩ := Prod.mk.inj (Option.some.inj h)
    exact .inl ⟨List.forall_mem_nil _, rfl, rfl⟩
  | c :: v, is, h => by
    by_cases hq : c = '"'
    · subst hq
      obtain ⟨rfl, -⟩ := Prod.mk.inj (Option.some.inj h)
      exact .inr (.inl (Nat.succ_pos _))
    by_cases hb : c = '\\'
    · subst hb
      match v with
      | [] => exact pasted_backslash ht h
      | e :: v =>
        by_cases hu : e = 'u'
        · subst hu
          obtain ⟨a, b, d, f, cs, hcs, hdigits, n, y, hy, heq⟩ := items_unit h
          obtain ⟨rfl, rfl⟩ := Prod.mk.inj heq
          obtain ⟨v', rfl, rfl⟩ := quote_after hcs hdigits
          exact (items_pasted ht hy).escape ['\\', 'u', a, b, d, f] (by simp)
        · rw [List.cons_append, List.cons_append, items_escape hu] at h
          obtain ⟨d, -, hmap⟩ := Option.bind_eq_some_iff.mp h
          obtain ⟨⟨is', r'⟩, his, heq⟩ := Option.map_eq_some_iff.mp hmap
          obtain ⟨rfl, rfl⟩ := Prod.mk.inj heq
          exact (items_pasted ht his).escape ['\\', e] (by simp)
    · rw [List.cons_append, items_cons hq hb] at h
      by_cases hle : ' ' ≤ c
      · rw [if_pos hle] at h
        obtain ⟨⟨is', r'⟩, his, heq⟩ := Option.map_eq_some_iff.mp h
        obtain ⟨rfl, rfl⟩ := Prod.mk.inj heq
        exact (items_pasted ht his).cons (plainChar_iff.mpr ⟨hle, hq, hb⟩)
      · rw [if_neg hle] at h
        cases h

/-- Between quotes, a text is read as itself if and only if it is plain. -/
theorem string_pasted_iff {v t r : List Char} (ht : '\\' ∉ t) :
    string (v ++ '"' :: t) = some (v, r) ↔ Plain v ∧ r = t := by
  constructor
  · intro h
    obtain ⟨⟨is, r'⟩, his, heq⟩ := Option.map_eq_some_iff.mp h
    obtain ⟨hchars, rfl⟩ := Prod.mk.inj heq
    rcases items_pasted ht his with ⟨hv, hr, -⟩ | hlt | ⟨w, is', c, hv, rfl, hc⟩
    · exact ⟨hv, hr⟩
    · have hle := length_chars_le is
      rw [hchars] at hle
      omega
    · rw [chars_append_char, hv] at hchars
      exact absurd (List.append_inj_right' hchars rfl) (by simp [hc])
  · rintro ⟨hv, rfl⟩
    exact string_plain hv _

/-! ### Objects with a pasted string -/

theorem next_comma {α : Type} (close : Char) (x : α) (more : List Char → Option (List α × List Char))
    (hclose : close ≠ ',') (cs : List Char) :
    next close x more (',' :: cs) = (more cs).map fun (xs, r) => (x :: xs, r) := by
  show (if ',' = close then some ([x], cs) else _) = _
  rw [if_neg (Ne.symm hclose)]
  rfl

/-- The element that was read comes first. -/
theorem next_eq_some {α : Type} {close : Char} {x : α} {more : List Char → Option (List α × List Char)}
    {cs r : List Char} {xs : List α} (h : next close x more cs = some (xs, r)) : ∃ xs', xs = x :: xs' := by
  unfold next at h
  split at h
  · split_ifs at h
    · exact ⟨[], (Prod.mk.inj (Option.some.inj h)).1.symm⟩
    · obtain ⟨⟨xs', r'⟩, -, heq⟩ := Option.map_eq_some_iff.mp h
      exact ⟨xs', (Prod.mk.inj heq).1.symm⟩
  · cases h

/-- A member whose value is a string, after any spaces. -/
theorem members_string {sp k : List Char} (hsp : sp.all isSpace) (hk : Plain k) (n : ℕ) (cs : List Char) :
    members (n + 2) (sp ++ '"' :: (k ++ '"' :: ':' :: ' ' :: '"' :: cs)) =
      (string cs).bind fun (s, r) => next '}' (String.ofList k, .str (String.ofList s)) (members (n + 1)) r := by
  have hskip : skip (sp ++ '"' :: (k ++ '"' :: ':' :: ' ' :: '"' :: cs)) = '"' :: (k ++ '"' :: ':' :: ' ' :: '"' :: cs) := by
    rw [skip, List.dropWhile_append_of_pos (List.all_eq_true.mp hsp)]
    rfl
  have hvalue : value (n + 1) (' ' :: '"' :: cs) = (string cs).map fun (s, r) => (.str (String.ofList s), r) := rfl
  rw [members, hskip]
  show (string (k ++ '"' :: _)).bind _ = _
  rw [string_plain hk]
  show (value (n + 1) (' ' :: '"' :: cs)).bind _ = _
  rw [hvalue]
  cases string cs <;> rfl

/-- An object of two strings, of which the second is pasted. -/
theorem read_pasted {e k₁ k₂ sp : List Char} (he : Plain e) (hk₁ : Plain k₁) (hk₂ : Plain k₂) (hsp : sp.all isSpace)
    (cs : List Char) : ∃ n,
      read ('{' :: '"' :: (k₁ ++ '"' :: ':' :: ' ' :: '"' :: (e ++ '"' :: ',' :: (sp ++ '"' :: (k₂ ++
        '"' :: ':' :: ' ' :: '"' :: cs))))) =
        (string cs).bind fun (s, r) =>
          (next '}' (String.ofList k₂, .str (String.ofList s)) (members (n + 2)) r).bind fun (ms, r) =>
            if skip r = [] then some (.obj ((String.ofList k₁, .str (String.ofList e)) :: ms)) else none := by
  have hfirst := fun n cs => @members_string [] k₁ rfl hk₁ (n + 2) (e ++ '"' :: ',' :: cs)
  simp only [string_plain he, Option.bind_some, next_comma '}' _ _ (by decide), List.nil_append] at hfirst
  obtain ⟨n, hn⟩ : ∃ n, ('{' :: '"' :: (k₁ ++ '"' :: ':' :: ' ' :: '"' :: (e ++ '"' :: ',' :: (sp ++ '"' :: (k₂ ++
        '"' :: ':' :: ' ' :: '"' :: cs))))).length + 1 = n + 5 := by
    refine Nat.exists_eq_add_of_le' ?_
    simp only [List.length_cons, List.length_append]
    omega
  refine ⟨n, ?_⟩
  rw [read, hn]
  show ((members (n + 4) _).map _).bind _ = _
  rw [hfirst, members_string hsp hk₂]
  cases string cs with
  | none => rfl
  | some x =>
    dsimp only [Option.bind_some]
    cases next '}' _ _ x.2 <;> rfl

/-- The object has the pasted string as it is if and only if that is plain. What
follows it is read as the members `ms`. -/
theorem read_pasted_iff {e k₁ k₂ v : String} {sp t : List Char} {ms : List (String × Json)} (he : Plain e.toList)
    (hk₁ : Plain k₁.toList) (hk₂ : Plain k₂.toList) (hsp : sp.all isSpace) (ht : '\\' ∉ t)
    (hms : ∀ x n, next '}' x (members (n + 2)) t = some (x :: ms, [])) :
    read ('{' :: '"' :: (k₁.toList ++ '"' :: ':' :: ' ' :: '"' :: (e.toList ++ '"' :: ',' :: (sp ++ '"' :: (k₂.toList ++
        '"' :: ':' :: ' ' :: '"' :: (v.toList ++ '"' :: t)))))) = some (.obj ((k₁, .str e) :: (k₂, .str v) :: ms)) ↔
      Plain v.toList := by
  obtain ⟨n, hread⟩ := read_pasted he hk₁ hk₂ hsp (v.toList ++ '"' :: t)
  simp only [String.ofList_toList] at hread
  rw [hread]
  constructor
  · intro h
    obtain ⟨⟨s, r⟩, hstring, hrest⟩ := Option.bind_eq_some_iff.mp h
    obtain ⟨⟨ms', r'⟩, hnext, hobj⟩ := Option.bind_eq_some_iff.mp hrest
    obtain ⟨xs, rfl⟩ := next_eq_some hnext
    dsimp only at hobj
    split_ifs at hobj
    have hval := (List.cons.inj (List.cons.inj (Json.obj.inj (Option.some.inj hobj))).2).1
    have hs : String.ofList s = v := Json.str.inj (Prod.mk.inj hval).2
    rw [← hs, String.toList_ofList] at hstring ⊢
    exact ((string_pasted_iff ht).mp hstring).1
  · intro hv
    rw [string_plain hv]
    show (next '}' _ (members (n + 2)) t).bind _ = _
    rw [hms, String.ofList_toList]
    rfl

theorem next_close (x : String × Json) (n : ℕ) : next '}' x (members n) ['}'] = some ([x], []) := rfl

theorem next_string {k s : String} (hk : Plain k.toList) (hs : Plain s.toList) (x : String × Json) (n : ℕ) :
    next '}' x (members (n + 2)) (',' :: ([' '] ++ '"' :: (k.toList ++ '"' :: ':' :: ' ' :: '"' ::
      (s.toList ++ '"' :: ['}'])))) = some ([x, (k, .str s)], []) := by
  rw [next_comma '}' _ _ (by decide), members_string rfl hk, string_plain hs]
  simp only [Option.bind_some, String.ofList_toList, next_close]
  rfl

end Json
