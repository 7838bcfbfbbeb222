/-
# Slash-separated paths

A path as the names between its slashes, and the cleaning of paths: a blank name
and `.` are left out, `..` takes back the name before it. Paths from the root are
cleaned by entering one name after the other.

Key definitions: `Paths.names`, `Paths.enter`, `Paths.render`, `Paths.clean`,
`Paths.joinAll`, `Paths.ext`, `Paths.Plain`.
Key theorems: `Paths.names_render`, `Paths.foldl_enter_plain`, `Paths.clean_rooted`,
`Paths.joinAll_render`, `Paths.join_append`, `Paths.ext_append`.
-/
import Mathlib.Data.List.Induction

namespace Paths

def names (path : List Char) : List (List Char) := path.splitOn '/'

/-- A name that follows a path from the root. -/
def enter (p : List (List Char)) (name : List Char) : List (List Char) :=
  if name = [] ∨ name = ['.'] then p else if name = ['.', '.'] then p.dropLast else p ++ [name]

/-- What follows a path from the root. -/
def join (dir : List (List Char)) (elem : List Char) : List (List Char) := (names elem).foldl enter dir

/-- The text of a path from the root. -/
def render (p : List (List Char)) : List Char := p.flatMap fun name => '/' :: name

/-- A name that follows a path from anywhere. -/
def enterRelative (p : List (List Char)) (name : List Char) : List (List Char) :=
  if name = [] ∨ name = ['.'] then p
  else if name = ['.', '.'] ∧ p ≠ [] ∧ p.getLast? ≠ some ['.', '.'] then p.dropLast else p ++ [name]

/-- `path.Clean` -/
def clean (path : List Char) : List Char :=
  if path.head? = some '/' then
    let p := join [] path
    if p = [] then ['/'] else render p
  else
    let p := (names path).foldl enterRelative []
    if p = [] then ['.'] else (render p).tail

/-- `path.Join` -/
def joinAll (elems : List (List Char)) : List Char :=
  let elems := elems.filter (· ≠ [])
  if elems = [] then [] else clean (['/'].intercalate elems)

/-- `path.Ext` -/
def ext (path : List Char) : List Char :=
  let reversed := path.reverse
  if '.' ∈ reversed.takeWhile (· ≠ '/') then '.' :: (reversed.takeWhile (· ≠ '.')).reverse else []

/-! ### Names -/

/-- A name that is entered as it is. -/
def Plain (name : List Char) : Prop := '/' ∉ name ∧ name ≠ [] ∧ name ≠ ['.'] ∧ name ≠ ['.', '.']

instance (name : List Char) : Decidable (Plain name) := inferInstanceAs (Decidable (_ ∧ _))

theorem names_plain {name : List Char} (h : '/' ∉ name) : names name = [name] := List.splitOn_eq_singleton h

theorem names_append (a b : List Char) : names (a ++ '/' :: b) = names a ++ names b := by
  unfold names
  rw [List.splitOn_eq_splitOnP, List.splitOnP_append_cons _ _ (by simp), List.splitOn_eq_splitOnP,
    List.splitOn_eq_splitOnP]

theorem names_render {p : List (List Char)} (h : ∀ name ∈ p, '/' ∉ name) : names (render p) = [] :: p := by
  induction p using List.reverseRecOn with
  | nil => rfl
  | append_singleton p name ih =>
    have hrender : render (p ++ [name]) = render p ++ '/' :: name := by simp [render]
    rw [hrender, names_append, ih fun n hn => h n (List.mem_append_left _ hn),
      names_plain (h name (List.mem_append_right _ (List.mem_singleton_self name)))]
    rfl

theorem names_cons (c : Char) (cs : List Char) :
    names (c :: cs) = if c = '/' then [] :: names cs else (names cs).modifyHead (c :: ·) := by
  rw [names, List.splitOn_eq_splitOnP, List.splitOnP_cons_eq_if_modifyHead, names, List.splitOn_eq_splitOnP]
  simp

theorem names_ne_nil (path : List Char) : names path ≠ [] := by
  rw [names, List.splitOn_eq_splitOnP]
  exact List.splitOnP_ne_nil _ _

theorem slash_notMem_names : ∀ {path name : List Char}, name ∈ names path → '/' ∉ name
  | [], name, h => by
    obtain rfl : name = [] := by simpa [names] using h
    simp
  | c :: cs, name, h => by
    rw [names_cons] at h
    split at h
    · rcases List.mem_cons.mp h with rfl | h
      · simp
      · exact slash_notMem_names h
    · rename_i hc
      obtain ⟨first, rest, hcs⟩ := List.exists_cons_of_ne_nil (names_ne_nil cs)
      have hmem : ∀ n ∈ first :: rest, '/' ∉ n := fun n hn => slash_notMem_names (hcs ▸ hn)
      rw [hcs, List.modifyHead_cons] at h
      rcases List.mem_cons.mp h with rfl | h
      · simpa [eq_comm, hc] using hmem first (List.mem_cons_self ..)
      · exact hmem name (List.mem_cons_of_mem _ h)

theorem render_names : ∀ path : List Char, render (names path) = '/' :: path
  | [] => rfl
  | c :: cs => by
    have ih := render_names cs
    rw [names_cons]
    split
    · rename_i hc
      rw [hc, ← ih]
      rfl
    · obtain ⟨first, rest, hcs⟩ := List.exists_cons_of_ne_nil (names_ne_nil cs)
      rw [hcs] at ih ⊢
      have htail : first ++ render rest = cs := List.tail_eq_of_cons_eq ih
      rw [List.modifyHead_cons, ← htail]
      rfl

/-- A path whose first name is blank, and not its only one, is from the root. -/
theorem head?_of_names {path name : List Char} {rest : List (List Char)} (h : names path = [] :: name :: rest) :
    path.head? = some '/' := by
  have hrender := render_names path
  rw [h] at hrender
  rw [← List.tail_eq_of_cons_eq hrender]
  rfl

/-! ### Cleaning -/

theorem enter_plain {name : List Char} (h : Plain name) (p : List (List Char)) : enter p name = p ++ [name] := by
  obtain ⟨-, hblank, hdot, hdots⟩ := h
  simp [enter, hblank, hdot, hdots]

theorem foldl_enter_plain {ns : List (List Char)} (h : ∀ name ∈ ns, Plain name) (p : List (List Char)) :
    ns.foldl enter p = p ++ ns := by
  induction ns generalizing p with
  | nil => simp
  | cons name ns ih =>
    rw [List.foldl_cons, enter_plain (h name (List.mem_cons_self ..)), ih fun n hn => h n (List.mem_cons_of_mem _ hn)]
    simp

theorem render_append (p q : List (List Char)) : render (p ++ q) = render p ++ render q := List.flatMap_append

theorem render_eq_nil {p : List (List Char)} : render p = [] ↔ p = [] := by
  cases p <;> simp [render]

theorem clean_rooted {path : List Char} (h : path.head? = some '/') (hne : join [] path ≠ []) :
    clean path = render (join [] path) := by
  rw [clean, if_pos h]
  exact if_neg hne

theorem joinAll_render {p q : List (List Char)} (hp : ∀ name ∈ p, Plain name) (hq : ∀ name ∈ q, Plain name)
    (hne : q ≠ []) : joinAll [render p, render q] = render (p ++ q) := by
  have hnames : ∀ ns : List (List Char), (∀ name ∈ ns, Plain name) → names (render ns) = [] :: ns :=
    fun ns h => names_render fun name hn => (h name hn).1
  have hblank : ∀ ns : List (List Char), enter ns [] = ns := fun ns => by simp [enter]
  have hq' : render q ≠ [] := fun h => hne (render_eq_nil.mp h)
  have hhead : ∀ ns : List (List Char), ns ≠ [] → ∀ text, (render ns ++ text).head? = some '/' := by
    intro ns hns text
    obtain ⟨n, ns, rfl⟩ := List.exists_cons_of_ne_nil hns
    rfl
  by_cases hpe : p = []
  · subst hpe
    have hjoin : join [] (render q) = q := by
      rw [join, hnames q hq, List.foldl_cons, hblank, foldl_enter_plain hq]
      rfl
    have hclean := clean_rooted (by simpa using hhead q hne []) (hjoin ▸ hne)
    have hfilter : [render [], render q].filter (· ≠ []) = [render q] := by
      rw [List.filter_cons_of_neg (by simp [render]), List.filter_cons_of_pos (by simpa using hq'), List.filter_nil]
    rw [hjoin] at hclean
    rw [joinAll, hfilter]
    simpa [List.intercalate] using hclean
  · have hp' : render p ≠ [] := fun h => hpe (render_eq_nil.mp h)
    have hjoin : join [] (render p ++ '/' :: render q) = p ++ q := by
      rw [join, names_append, hnames p hp, hnames q hq, List.foldl_append, List.foldl_cons, List.foldl_cons, hblank,
        hblank, foldl_enter_plain hp, foldl_enter_plain hq]
      rfl
    have hclean := clean_rooted (hhead p hpe _) (hjoin ▸ List.append_ne_nil_of_left_ne_nil hpe q)
    rw [hjoin] at hclean
    simpa [joinAll, hp', hq', List.intercalate] using hclean

/-! ### Extensions -/

theorem ext_append {word : List Char} (hdot : '.' ∉ word) (hslash : '/' ∉ word) (name : List Char) :
    ext (name ++ '.' :: word) = '.' :: word := by
  have hreverse : (name ++ '.' :: word).reverse = word.reverse ++ '.' :: name.reverse := by simp
  have hword : ∀ c ∈ word.reverse, (c ≠ '.') ∧ (c ≠ '/') := by
    intro c hc
    rw [List.mem_reverse] at hc
    exact ⟨fun h => hdot (h ▸ hc), fun h => hslash (h ▸ hc)⟩
  simp only [ext, hreverse]
  rw [List.takeWhile_append_of_pos (fun c hc => by simpa using (hword c hc).2),
    List.takeWhile_append_of_pos (fun c hc => by simpa using (hword c hc).1)]
  simp

theorem names_ends {word : List Char} (hslash : '/' ∉ word) :
    ∀ name : List Char, ∃ ns last, names (name ++ word) = ns ++ [last ++ word]
  | [] => ⟨[], [], by simpa using names_plain hslash⟩
  | c :: cs => by
    obtain ⟨ns, last, hcs⟩ := names_ends hslash cs
    rw [List.cons_append, names_cons, hcs]
    split
    · exact ⟨[] :: ns, last, rfl⟩
    · cases ns with
      | nil => exact ⟨[], c :: last, rfl⟩
      | cons first rest => exact ⟨(c :: first) :: rest, last, rfl⟩

/-- What ends in an extension is a file with that extension, wherever it is. -/
theorem join_append {word : List Char} (hword : word ≠ []) (hdot : '.' ∉ word) (hslash : '/' ∉ word)
    (dir : List (List Char)) (name : List Char) :
    ∃ p last, join dir (name ++ '.' :: word) = p ++ [last ++ '.' :: word] := by
  have hslash' : '/' ∉ '.' :: word := by simp [hslash]
  obtain ⟨ns, last, hsplit⟩ := names_ends hslash' name
  refine ⟨ns.foldl enter dir, last, ?_⟩
  rw [join, hsplit, List.foldl_append, List.foldl_cons, List.foldl_nil, enter]
  have hlast : ∀ k, (last ++ '.' :: word).length = k → 2 ≤ k := by
    rintro k rfl
    have hpos := List.length_pos_iff.mpr hword
    simp only [List.length_append, List.length_cons]
    omega
  have hne : last ++ '.' :: word ≠ ['.', '.'] := by
    intro h
    have hend : '.' :: word <:+ ['.', '.'] := ⟨last, h⟩
    have hmem : ∀ c ∈ word, c = '.' := fun c hc => by simpa using hend.subset (List.mem_cons_of_mem _ hc)
    obtain ⟨c, cs, rfl⟩ := List.exists_cons_of_ne_nil hword
    have hc := hmem c (List.mem_cons_self ..)
    exact hdot (hc ▸ List.mem_cons_self ..)
  rw [if_neg, if_neg hne]
  rintro (h | h)
  · exact absurd (hlast 0 (by rw [h]; rfl)) (by decide)
  · exact absurd (hlast 1 (by rw [h]; rfl)) (by decide)

end Paths
