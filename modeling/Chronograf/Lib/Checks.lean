/-
# Checks that pass

Computations in `Except ε` as checks: when a sequence of checks passes, a
check of every element of a list, a correction of every element. In `Option`,
what a computation for every element gives.

Key theorems: `Except.bind_ok_iff`, `Except.forM_ok_iff`, `Except.mapM_ok_iff`, `Except.mapM_perm`,
`Except.mapM_forall₂_iff`, `Except.foldlM_ok_iff`, `Except.foldlM_marks`, `Option.mapM_eq_map`, `Option.mem_of_mapM`.
-/
import Mathlib.Tactic.Basic
import Mathlib.Data.List.Basic

namespace Except

variable {ε α β : Type} {f : α → Except ε β} {g : α → Except ε Unit}

theorem bind_ok_iff {p : Except ε α} {b : β} : (p >>= f) = .ok b ↔ ∃ a, p = .ok a ∧ f a = .ok b := by
  cases p <;> simp [Bind.bind, Except.bind]

/-- A check of every element passes if it passes on each of them. -/
theorem forM_ok_iff : ∀ {as : List α}, as.forM g = .ok () ↔ ∀ a ∈ as, g a = .ok ()
  | [] => by simp [pure, Except.pure]
  | a :: as => by
    show (g a >>= fun _ => as.forM g) = .ok () ↔ _
    rw [bind_ok_iff, List.forall_mem_cons, ← forM_ok_iff]
    exact ⟨fun ⟨⟨⟩, ha, has⟩ => ⟨ha, has⟩, fun ⟨ha, has⟩ => ⟨(), ha, has⟩⟩

/-- A correction of every element goes through if it does on each of them. -/
theorem mapM_ok_iff : ∀ {as : List α}, (∃ bs, as.mapM f = .ok bs) ↔ ∀ a ∈ as, ∃ b, f a = .ok b
  | [] => by simp [pure, Except.pure]
  | a :: as => by
    rw [List.forall_mem_cons, ← mapM_ok_iff]
    simp only [List.mapM_cons, bind_ok_iff]
    constructor
    · rintro ⟨bs, b, hb, bs', hbs', -⟩
      exact ⟨⟨b, hb⟩, bs', hbs'⟩
    · rintro ⟨⟨b, hb⟩, bs, hbs⟩
      exact ⟨b :: bs, b, hb, bs, hbs, rfl⟩

/-- What a correction makes of the elements in another order. -/
theorem mapM_perm {as as' : List α} {bs : List β} (h : as.mapM f = .ok bs) (hperm : as'.Perm as) :
    ∃ bs', as'.mapM f = .ok bs' ∧ bs'.Perm bs := by
  induction hperm generalizing bs with
  | nil => exact ⟨bs, h, List.Perm.refl bs⟩
  | cons a _ ih =>
    simp only [List.mapM_cons, bind_ok_iff] at h ⊢
    obtain ⟨b, hb, bs₁, hbs₁, ⟨⟩⟩ := h
    obtain ⟨bs', hbs', hperm⟩ := ih hbs₁
    exact ⟨b :: bs', ⟨b, hb, bs', hbs', rfl⟩, hperm.cons b⟩
  | swap a a' as =>
    simp only [List.mapM_cons, bind_ok_iff] at h ⊢
    obtain ⟨b, hb, _, ⟨b', hb', bs₁, hbs₁, ⟨⟩⟩, ⟨⟩⟩ := h
    exact ⟨b' :: b :: bs₁, ⟨b', hb', _, ⟨b, hb, bs₁, hbs₁, rfl⟩, rfl⟩, List.Perm.swap b b' bs₁⟩
  | trans _ _ ih ih' =>
    obtain ⟨bs', hbs', hperm⟩ := ih' h
    obtain ⟨bs'', hbs'', hperm'⟩ := ih hbs'
    exact ⟨bs'', hbs'', hperm'.trans hperm⟩

/-- A correction of every element goes through with related results if it does on each of them. -/
theorem mapM_forall₂_iff {r : α → β → Prop} : ∀ {as : List α},
    (∃ bs, as.mapM f = .ok bs ∧ List.Forall₂ r as bs) ↔ ∀ a ∈ as, ∃ b, f a = .ok b ∧ r a b
  | [] => iff_of_true ⟨[], rfl, .nil⟩ nofun
  | a :: as => by
    rw [List.forall_mem_cons, ← mapM_forall₂_iff]
    simp only [List.mapM_cons, bind_ok_iff]
    constructor
    · rintro ⟨bs, ⟨b, hb, bs', hbs', ⟨⟩⟩, hr⟩
      obtain ⟨hab, hrest⟩ := List.forall₂_cons.mp hr
      exact ⟨⟨b, hb, hab⟩, bs', hbs', hrest⟩
    · rintro ⟨⟨b, hb, hab⟩, bs, hbs, hrest⟩
      exact ⟨b :: bs, ⟨b, hb, bs, hbs, rfl⟩, .cons hab hrest⟩

section Folds

variable {σ : Type} {F : σ → α → Except ε σ}

/-- Steps that go through on the good elements go through on a list of these. -/
theorem foldlM_ok_iff {I : σ → Prop} {Good : α → Prop} (hstep : ∀ s a, I s → ((∃ s', F s a = .ok s') ↔ Good a))
    (hI : ∀ s a s', I s → F s a = .ok s' → I s') : ∀ (as : List α) (s : σ), I s →
    ((∃ s', as.foldlM F s = .ok s') ↔ ∀ a ∈ as, Good a)
  | [], s, _ => iff_of_true ⟨s, rfl⟩ nofun
  | a :: as, s, hs => by
    rw [List.forall_mem_cons, ← hstep s a hs]
    simp only [List.foldlM_cons, bind_ok_iff]
    constructor
    · rintro ⟨s', t, ht, hrest⟩
      exact ⟨⟨t, ht⟩, (foldlM_ok_iff hstep hI as t (hI s a t hs ht)).mp ⟨s', hrest⟩⟩
    · rintro ⟨⟨t, ht⟩, hgood⟩
      obtain ⟨s', hrest⟩ := (foldlM_ok_iff hstep hI as t (hI s a t hs ht)).mpr hgood
      exact ⟨s', t, ht, hrest⟩

theorem foldlM_keeps {P : σ → Prop} (hkeep : ∀ s b s', P s → F s b = .ok s' → P s') : ∀ {as : List α} {s s' : σ}, P s →
    as.foldlM F s = .ok s' → P s'
  | [], _, _, hs, h => by
    cases h
    exact hs
  | a :: as, s, s', hs, h => by
    rw [List.foldlM_cons] at h
    obtain ⟨t, ht, hrest⟩ := bind_ok_iff.mp h
    exact foldlM_keeps hkeep (hkeep s a t hs ht) hrest

/-- What a step leaves of its element, and later steps keep, the whole fold leaves of each element. -/
theorem foldlM_marks {P : α → σ → Prop} (hmark : ∀ s a s', F s a = .ok s' → P a s')
    (hkeep : ∀ s a b s', P a s → F s b = .ok s' → P a s') : ∀ {as : List α} {s s' : σ}, as.foldlM F s = .ok s' →
    ∀ a ∈ as, P a s'
  | [], _, _, _ => nofun
  | a :: as, s, s', h => by
    rw [List.foldlM_cons] at h
    obtain ⟨t, ht, hrest⟩ := bind_ok_iff.mp h
    rw [List.forall_mem_cons]
    exact ⟨foldlM_keeps (fun s b s' => hkeep s a b s') (hmark s a t ht) hrest, foldlM_marks hmark hkeep hrest⟩

end Folds

end Except

namespace Option

variable {α β : Type} {f : α → Option β}

theorem mapM_eq_map {g : α → β} : ∀ {l : List α}, (∀ a ∈ l, f a = some (g a)) → l.mapM f = some (l.map g)
  | [], _ => rfl
  | a :: l, h => by
    rw [List.mapM_cons, h a List.mem_cons_self, mapM_eq_map fun b hb => h b (List.mem_cons_of_mem _ hb)]
    rfl

theorem mem_of_mapM : ∀ {l : List α} {bs : List β} {b : β}, l.mapM f = some bs → b ∈ bs → ∃ a ∈ l, f a = some b
  | [], bs, b, h, hb => by
    obtain rfl : [] = bs := Option.some.inj h
    exact absurd hb List.not_mem_nil
  | a :: l, bs, b, h, hb => by
    rw [List.mapM_cons] at h
    obtain ⟨b', hb', h⟩ := Option.bind_eq_some_iff.mp h
    obtain ⟨rest, hrest, h⟩ := Option.bind_eq_some_iff.mp h
    obtain rfl := Option.some.inj h
    rcases List.mem_cons.mp hb with rfl | hb
    · exact ⟨a, List.mem_cons_self, hb'⟩
    · obtain ⟨a', ha', heq⟩ := mem_of_mapM hrest hb
      exact ⟨a', List.mem_cons_of_mem _ ha', heq⟩

end Option
