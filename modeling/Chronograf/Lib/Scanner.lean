/-
# Scanners

A scanner reads a text token by token. How the next token is read depends on
the mode that the last one has set. A text that is pasted into another one may
or may not be read as what stands for it (`Fills`): what is pasted after it is
read as before if it is.

Key definitions: `Scanner`, `Scanner.tokens`, `Scanner.fixed`, `Fills`.
Key theorems: `Scanner.tokens_fixed`, `Fills.append`, `Fills.eq_iff`.
-/
import Mathlib.Data.List.Infix
import Mathlib.Data.Nat.Notation

/-- A token, the mode after it and the text after it, or the last token. -/
inductive Scan (Mode Token : Type)
  | token (t : Token) (mode : Mode) (rest : List Char)
  | stop (t : Token)

/-- Every token but the last takes something from the front of the text. -/
structure Scanner (Mode Token : Type) where
  next : Mode → List Char → Scan Mode Token
  takes : ∀ {m cs t m' rest}, next m cs = .token t m' rest → rest <:+ cs ∧ rest.length < cs.length

namespace Scanner

variable {Mode Token : Type} {S : Scanner Mode Token} {m m' : Mode} {cs rest : List Char} {t : Token}

def run (S : Scanner Mode Token) : ℕ → Mode → List Char → List Token
  | 0, _, _ => []
  | n + 1, m, cs =>
    match S.next m cs with
    | .token t m' rest => t :: run S n m' rest
    | .stop t => [t]

def tokens (S : Scanner Mode Token) (m : Mode) (cs : List Char) : List Token := S.run (cs.length + 1) m cs

theorem run_of_token {n : ℕ} (h : S.next m cs = .token t m' rest) : S.run (n + 1) m cs = t :: S.run n m' rest := by
  rw [run, h]

theorem tokens_of_stop (h : S.next m cs = .stop t) : S.tokens m cs = [t] := by
  rw [tokens, run, h]

/-- As many steps as the text is long are enough. -/
theorem run_eq_run {n k : ℕ} : ∀ {m : Mode} {cs : List Char}, cs.length < n → cs.length < k →
    S.run n m cs = S.run k m cs := by
  induction n generalizing k with
  | zero => exact fun h => absurd h (Nat.not_lt_zero _)
  | succ n ih =>
    intro m cs hn hk
    obtain ⟨k, rfl⟩ : ∃ j, k = j + 1 := ⟨k - 1, by omega⟩
    cases hnext : S.next m cs with
    | stop t => rw [run, run, hnext]
    | token t m' rest =>
      have hshort := (S.takes hnext).2
      have hrest : S.run n m' rest = S.run k m' rest := ih (by omega) (by omega)
      rw [run_of_token hnext, run_of_token hnext, hrest]

theorem tokens_of_token (h : S.next m cs = .token t m' rest) : S.tokens m cs = t :: S.tokens m' rest := by
  have hshort := (S.takes h).2
  rw [tokens, run_of_token h, run_eq_run hshort (Nat.lt_succ_self rest.length), ← tokens]

theorem tokens_congr {cs' : List Char} (h : S.next m cs = S.next m' cs') : S.tokens m cs = S.tokens m' cs' := by
  cases hnext : S.next m' cs' with
  | stop t => rw [tokens_of_stop hnext, tokens_of_stop (h.trans hnext)]
  | token t m'' rest => rw [tokens_of_token hnext, tokens_of_token (h.trans hnext)]

/-! ### Fixed texts -/

/-- The tokens of a text that ends with blanks after the last of them, and the
mode then. -/
def fixed (S : Scanner Mode Token) (blank : Char → Bool) : ℕ → Mode → List Char → Option (List Token × Mode)
  | 0, _, _ => none
  | n + 1, m, cs =>
    if cs.all blank then some ([], m)
    else
      match S.next m cs with
      | .token t m' rest => if rest.isEmpty then none else (fixed S blank n m' rest).map fun p => (t :: p.1, p.2)
      | .stop _ => none

/-- A fixed text has the same tokens before every other text, also for a
scanner that agrees on its characters only. -/
theorem tokens_fixed {S₀ : Scanner Mode Token} {blank plain : Char → Bool}
    (hblank : ∀ {m cs} rest, cs.all blank → S.tokens m (cs ++ rest) = S.tokens m rest)
    (hlocal : ∀ {m cs t m' rest} more, cs.all plain → S₀.next m cs = .token t m' rest → rest ≠ [] →
      S.next m (cs ++ more) = .token t m' (rest ++ more)) (more : List Char) {n : ℕ} :
    ∀ {m : Mode} {cs : List Char} {ts : List Token} {m' : Mode}, cs.all plain → S₀.fixed blank n m cs = some (ts, m') →
      S.tokens m (cs ++ more) = ts ++ S.tokens m' more := by
  induction n with
  | zero => exact fun _ h => nomatch h
  | succ n ih =>
    intro m cs ts m' hplain h
    rw [fixed] at h
    split_ifs at h with hall
    · obtain ⟨rfl, rfl⟩ := Prod.mk.inj (Option.some.inj h)
      exact hblank more hall
    · cases hnext : S₀.next m cs with
      | stop t => simp only [hnext, reduceCtorEq] at h
      | token t m₁ rest =>
        simp only [hnext] at h
        split_ifs at h with hempty
        obtain ⟨⟨us, m₂⟩, hrest, heq⟩ := Option.map_eq_some_iff.mp h
        obtain ⟨rfl, rfl⟩ := Prod.mk.inj heq
        have hsuffix : rest.all plain := List.all_eq_true.mpr fun c hc =>
          List.all_eq_true.mp hplain c ((S₀.takes hnext).1.subset hc)
        have hne : rest ≠ [] := fun hrest => hempty (List.isEmpty_iff.mpr hrest)
        rw [tokens_of_token (hlocal more hplain hnext hne), ih hsuffix hrest, List.cons_append]

end Scanner

/-! ### Pasted texts -/

/-- Before `rest` the text is read as `ts` if and only if it is `clean`, and
what follows is then read in mode `m'`. -/
structure Fills {Mode β : Type} (lex : Mode → List Char → List β) (m : Mode) (text rest : List Char) (ts : List β)
    (m' : Mode) (clean : Prop) : Prop where
  reads : clean → lex m (text ++ rest) = ts ++ lex m' rest
  clean_of : ∀ us, lex m (text ++ rest) = ts ++ us → clean

namespace Fills

variable {Mode β : Type} {lex : Mode → List Char → List β} {m m' m'' : Mode} {text text' rest : List Char}
  {ts ts' : List β} {clean clean' : Prop}

theorem fixed (h : lex m (text ++ rest) = ts ++ lex m' rest) : Fills lex m text rest ts m' True :=
  ⟨fun _ => h, fun _ _ => trivial⟩

theorem append (h : Fills lex m text (text' ++ rest) ts m' clean) (h' : Fills lex m' text' rest ts' m'' clean') :
    Fills lex m (text ++ text') rest (ts ++ ts') m'' (clean ∧ clean') where
  reads := by
    rintro ⟨hc, hc'⟩
    rw [List.append_assoc, h.reads hc, h'.reads hc', List.append_assoc]
  clean_of us hus := by
    rw [List.append_assoc, List.append_assoc] at hus
    have hc := h.clean_of _ hus
    rw [h.reads hc, List.append_cancel_left_eq] at hus
    exact ⟨hc, h'.clean_of us hus⟩

theorem congr (h : Fills lex m text rest ts m' clean) (hclean : clean ↔ clean') : Fills lex m text rest ts m' clean' :=
  ⟨fun hc => h.reads (hclean.mpr hc), fun us hus => hclean.mp (h.clean_of us hus)⟩

/-- A whole text. -/
theorem eq_iff (h : Fills lex m text [] ts m' clean) : lex m text = ts ++ lex m' [] ↔ clean := by
  have hreads := h.reads
  have hclean := h.clean_of (lex m' [])
  rw [List.append_nil] at hreads hclean
  exact ⟨hclean, hreads⟩

end Fills
