/-
# Texts in chunks of lines

A text is split where a line between two others is blank, and read by an
automaton that stops at a blank line between others and at a line
that begins with a number sign. The first line may be blank or begin
with one; of the last line the automaton tells whether it is blank.

Key definitions: `Chunks.splitBlank`, `Chunks.chunks`, `Chunks.Calm`, `Chunks.reads`.
Key theorems: `Chunks.chunks_intercalate`, `Chunks.interior_of_mem_chunks`, `Chunks.reads_start_iff`, `Chunks.calm_iff`.
-/
import Mathlib.Data.List.Basic
import Mathlib.Tactic.SplitIfs

namespace Chunks

/-- White space and line terminators. -/
def isSpace (c : Char) : Bool :=
  c.toNat ∈ [9, 10, 11, 12, 13, 32, 160, 5760, 8192, 8193, 8194, 8195, 8196, 8197, 8198, 8199, 8200, 8201, 8202, 8232, 8233, 8239, 8287,
    12288, 65279]

def trim (cs : List Char) : List Char := ((cs.dropWhile isSpace).reverse.dropWhile isSpace).reverse

abbrev Line := List Char

def lines (cs : List Char) : List Line := cs.splitOn '\n'

def joinLines (ls : List Line) : List Char := ['\n'].intercalate ls

def isBlank (l : Line) : Bool := l.all isSpace

/-- The lines behind a chunk that is not complete. Blank lines after the first are left out with it. -/
def splitBlank (chunk : List Line) : List Line → List (List Line)
  | [] => [chunk]
  | [line] => [chunk ++ [line]]
  | line :: next :: ls =>
    if isBlank line then
      if chunk = [] then splitBlank [] (next :: ls) else chunk :: splitBlank [] (next :: ls)
    else splitBlank (chunk ++ [line]) (next :: ls)

/-- `split(/\n\s*\n/)`. -/
def chunks (cs : List Char) : List (List Char) :=
  match lines cs with
  | [] => []
  | first :: ls => (splitBlank [first] ls).map joinLines

/-! ### Lines -/

theorem notMem_of_mem_splitOn {a : Char} : ∀ {cs part : List Char}, part ∈ cs.splitOn a → a ∉ part
  | [], part, h => by
    rw [List.splitOn_nil, List.mem_singleton] at h
    exact h ▸ List.not_mem_nil
  | c :: cs, part, h => by
    rw [List.splitOn_cons_eq_if_modifyHead] at h
    split_ifs at h with hc
    · rcases List.mem_cons.mp h with rfl | h
      · exact List.not_mem_nil
      · exact notMem_of_mem_splitOn h
    · obtain ⟨first, rest, hrest⟩ := List.exists_cons_of_ne_nil (List.splitOn_ne_nil a cs)
      rw [hrest, List.modifyHead_cons] at h
      rcases List.mem_cons.mp h with rfl | h
      · have hmem : first ∈ cs.splitOn a := hrest ▸ List.mem_cons_self
        have hfirst : a ∉ first := notMem_of_mem_splitOn hmem
        rw [List.mem_cons, not_or]
        exact ⟨fun heq => hc (heq ▸ BEq.refl a), hfirst⟩
      · exact notMem_of_mem_splitOn (hrest ▸ List.mem_cons_of_mem _ h)


variable {ls ls' : List Line} {chunk : List Line}

theorem joinLines_lines (cs : List Char) : joinLines (lines cs) = cs := List.intercalate_splitOn '\n'

theorem lines_joinLines (h : ∀ l ∈ ls, '\n' ∉ l) (hne : ls ≠ []) : lines (joinLines ls) = ls := List.splitOn_intercalate '\n' h hne

theorem lines_ne_nil (cs : List Char) : lines cs ≠ [] := List.splitOn_ne_nil '\n' cs

theorem joinLines_singleton (l : Line) : joinLines [l] = l := List.intercalate_singleton ..

theorem joinLines_cons (l : Line) (hne : ls ≠ []) : joinLines (l :: ls) = l ++ '\n' :: joinLines ls := by
  obtain ⟨l', ls, rfl⟩ := List.exists_cons_of_ne_nil hne
  rw [joinLines, List.intercalate_cons_cons, List.append_assoc]
  rfl

theorem joinLines_append (hne : ls ≠ []) (hne' : ls' ≠ []) : joinLines (ls ++ ls') = joinLines ls ++ '\n' :: joinLines ls' := by
  induction ls with
  | nil => exact absurd rfl hne
  | cons l ls ih =>
    cases ls with
    | nil => rw [List.singleton_append, joinLines_cons l hne', joinLines_singleton]
    | cons next more =>
      have hrest := ih (List.cons_ne_nil next more)
      rw [List.cons_append, joinLines_cons l (by simp), hrest, joinLines_cons l (List.cons_ne_nil next more), List.append_assoc]
      rfl

/-- Texts with line breaks of their own. -/
theorem joinLines_flatMap_lines (ts : List (List Char)) : joinLines (ts.flatMap lines) = joinLines ts := by
  induction ts with
  | nil => rfl
  | cons t ts ih =>
    cases ts with
    | nil => rw [List.flatMap_cons, List.flatMap_nil, List.append_nil, joinLines_lines, joinLines_singleton]
    | cons next more =>
      have hne : (next :: more).flatMap lines ≠ [] := by
        rw [List.flatMap_cons]
        exact fun h => lines_ne_nil next (List.append_eq_nil_iff.mp h).1
      rw [List.flatMap_cons, joinLines_append (lines_ne_nil t) hne, ih, joinLines_lines, joinLines_cons t (List.cons_ne_nil _ _)]

theorem lines_joinLines_texts {ts : List (List Char)} (hne : ts ≠ []) : lines (joinLines ts) = ts.flatMap lines := by
  rw [← joinLines_flatMap_lines]
  refine lines_joinLines (fun l hl => ?_) fun h => ?_
  · obtain ⟨t, -, hl⟩ := List.mem_flatMap.mp hl
    exact notMem_of_mem_splitOn hl
  · obtain ⟨t, ts, rfl⟩ := List.exists_cons_of_ne_nil hne
    exact lines_ne_nil t (List.append_eq_nil_iff.mp h).1

/-- White space behind a text that begins and ends with something. -/
theorem trim_append {cs ws : List Char} {c : Char} (hfirst : cs.head? = some c) (hc : ¬isSpace c) {init : List Char} {d : Char}
    (hlast : cs = init ++ [d]) (hd : ¬isSpace d) (hws : ∀ c ∈ ws, isSpace c) : trim (cs ++ ws) = cs := by
  have hbegin : (cs ++ ws).dropWhile isSpace = cs ++ ws := by
    cases cs with
    | nil => exact absurd hfirst nofun
    | cons a cs =>
      rw [List.cons_append, List.dropWhile_cons, if_neg (Option.some_inj.mp hfirst ▸ hc)]
  rw [trim, hbegin, List.reverse_append, List.dropWhile_append_of_pos fun c h => hws c (List.mem_reverse.mp h), hlast, List.reverse_append,
    List.reverse_singleton, List.singleton_append, List.dropWhile_cons, if_neg hd, List.reverse_cons, List.reverse_reverse]

/-! ### Chunks -/

theorem splitBlank_append (h : ∀ l ∈ ls, ¬isBlank l) (rest : List Line) : splitBlank chunk (ls ++ rest) = splitBlank (chunk ++ ls) rest := by
  induction ls generalizing chunk with
  | nil => rw [List.nil_append, List.append_nil]
  | cons l ls ih =>
    have hrest : splitBlank (chunk ++ [l]) (ls ++ rest) = splitBlank (chunk ++ [l] ++ ls) rest :=
      ih fun l' hl' => h l' (List.mem_cons_of_mem _ hl')
    rw [← List.append_cons] at hrest
    rw [List.cons_append, ← hrest]
    cases hls : ls ++ rest with
    | nil => rfl
    | cons next more => rw [splitBlank, if_neg (h l List.mem_cons_self)]

theorem splitBlank_blank {b next : Line} (hb : isBlank b) (hne : chunk ≠ []) :
    splitBlank chunk (b :: next :: ls) = chunk :: splitBlank [] (next :: ls) := by
  rw [splitBlank, if_pos hb, if_neg hne]

theorem splitBlank_intercalate {b : Line} (hb : isBlank b) : ∀ {blocks : List (List Line)} {chunk : List Line}, chunk ≠ [] → (∀ ls ∈ blocks, ls ≠ []) →
    (∀ ls ∈ blocks, ∀ l ∈ ls, ¬isBlank l) → splitBlank chunk (blocks.flatMap fun ls => b :: ls) = chunk :: blocks
  | [], _, _, _, _ => rfl
  | ls :: blocks, chunk, hchunk, hne, hlines => by
    obtain ⟨next, more, rfl⟩ := List.exists_cons_of_ne_nil (hne ls List.mem_cons_self)
    have hrest := splitBlank_intercalate hb (hne (next :: more) List.mem_cons_self) (fun ls' h => hne ls' (List.mem_cons_of_mem _ h))
      fun ls' h => hlines ls' (List.mem_cons_of_mem _ h)
    rw [List.flatMap_cons, List.cons_append, List.cons_append, splitBlank_blank hb hchunk, ← List.cons_append,
      splitBlank_append (hlines _ List.mem_cons_self), List.nil_append, hrest]

theorem intercalate_cons (b : Line) (ls : List Line) (blocks : List (List Line)) :
    [b].intercalate (ls :: blocks) = ls ++ blocks.flatMap (b :: ·) := by
  induction blocks generalizing ls with
  | nil => rw [List.intercalate_singleton, List.flatMap_nil, List.append_nil]
  | cons next blocks ih =>
    rw [List.intercalate_cons_cons, ih, List.flatMap_cons, List.append_assoc]
    rfl

/-- Texts in blocks, with a blank line between the blocks. -/
theorem chunks_intercalate {b : Line} (hb : isBlank b) (hbreak : '\n' ∉ b) {blocks : List (List (List Char))} (hblocks : blocks ≠ [])
    (hne : ∀ ts ∈ blocks, ts ≠ []) (hlines : ∀ ts ∈ blocks, ∀ t ∈ ts, ∀ l ∈ lines t, ¬isBlank l) :
    chunks (joinLines ([b].intercalate blocks)) = blocks.map joinLines := by
  obtain ⟨ts, blocks, rfl⟩ := List.exists_cons_of_ne_nil hblocks
  have hts := hne ts List.mem_cons_self
  have hall : lines (joinLines ([b].intercalate (ts :: blocks))) = ts.flatMap lines ++ (blocks.map (·.flatMap lines)).flatMap (b :: ·) := by
    have hb' : lines b = [b] := List.splitOn_eq_singleton hbreak
    rw [intercalate_cons, lines_joinLines_texts fun h => hts (List.append_eq_nil_iff.mp h).1, List.flatMap_append, List.flatMap_map,
      List.flatMap_assoc]
    simp only [List.flatMap_cons, hb']
    rfl
  have hnonblank : ∀ part ∈ (ts :: blocks).map (·.flatMap lines), ∀ l ∈ part, ¬isBlank l := fun part hpart l hl => by
    obtain ⟨ts', hts', rfl⟩ := List.mem_map.mp hpart
    obtain ⟨t, ht, hl⟩ := List.mem_flatMap.mp hl
    exact hlines ts' hts' t ht l hl
  have hnonempty : ∀ part ∈ (ts :: blocks).map (·.flatMap lines), part ≠ [] := fun part hpart => by
    obtain ⟨ts', hts', rfl⟩ := List.mem_map.mp hpart
    obtain ⟨t, more, rfl⟩ := List.exists_cons_of_ne_nil (hne ts' hts')
    exact fun h => lines_ne_nil t (List.append_eq_nil_iff.mp h).1
  obtain ⟨first, more, hfirst⟩ : ∃ first more, ts.flatMap lines = first :: more :=
    List.exists_cons_of_ne_nil (hnonempty _ List.mem_cons_self)
  have hsplit : splitBlank [first] (more ++ (blocks.map (·.flatMap lines)).flatMap (b :: ·)) = (first :: more) :: blocks.map (·.flatMap lines) := by
    have hmore : ∀ l ∈ more, ¬isBlank l := fun l hl =>
      hnonblank (ts.flatMap lines) List.mem_cons_self l (hfirst ▸ List.mem_cons_of_mem _ hl)
    rw [splitBlank_append hmore]
    exact splitBlank_intercalate hb (List.cons_ne_nil _ _) (fun part h => hnonempty part (List.mem_cons_of_mem _ h))
      fun part h => hnonblank part (List.mem_cons_of_mem _ h)
  rw [chunks, hall, hfirst, List.cons_append]
  refine (congrArg (List.map joinLines) hsplit).trans ?_
  have hparts : (first :: more) :: blocks.map (·.flatMap lines) = (ts :: blocks).map (·.flatMap lines) := by rw [← hfirst, List.map_cons]
  rw [hparts, List.map_map]
  exact List.map_congr_left fun ts _ => joinLines_flatMap_lines ts

/-- The lines between the first one and the last one of a chunk are not blank. -/
theorem interior_of_mem_splitBlank : ∀ {ls chunk : List Line}, (∀ l ∈ chunk.tail, ¬isBlank l) → ∀ piece ∈ splitBlank chunk ls,
    ∀ l ∈ piece.tail.dropLast, ¬isBlank l
  | [], chunk, h, piece, hpiece, l, hl => by
    rw [splitBlank, List.mem_singleton] at hpiece
    exact h l (hpiece ▸ (List.dropLast_sublist _).subset hl)
  | [line], chunk, h, piece, hpiece, l, hl => by
    rw [splitBlank, List.mem_singleton] at hpiece
    subst hpiece
    cases chunk with
    | nil => exact absurd hl List.not_mem_nil
    | cons first chunk =>
      rw [List.cons_append, List.tail_cons, List.dropLast_concat] at hl
      exact h l hl
  | line :: next :: ls, chunk, h, piece, hpiece, l, hl => by
    rw [splitBlank] at hpiece
    split_ifs at hpiece with hblank hchunk
    · exact interior_of_mem_splitBlank (fun l' hl' => absurd hl' List.not_mem_nil) piece hpiece l hl
    · rcases List.mem_cons.mp hpiece with rfl | hpiece
      · exact h l ((List.dropLast_sublist _).subset hl)
      · exact interior_of_mem_splitBlank (fun l' hl' => absurd hl' List.not_mem_nil) piece hpiece l hl
    · refine interior_of_mem_splitBlank (fun l' hl' => ?_) piece hpiece l hl
      cases chunk with
      | nil => exact absurd hl' List.not_mem_nil
      | cons first chunk =>
        rw [List.cons_append, List.tail_cons, List.mem_append, List.mem_singleton] at hl'
        rcases hl' with hl' | rfl
        · exact h l' hl'
        · exact hblank

theorem mem_of_mem_splitBlank : ∀ {ls chunk piece : List Line} {l : Line}, piece ∈ splitBlank chunk ls → l ∈ piece → l ∈ chunk ∨ l ∈ ls
  | [], chunk, piece, l, hpiece, hl => by
    rw [splitBlank, List.mem_singleton] at hpiece
    exact .inl (hpiece ▸ hl)
  | [line], chunk, piece, l, hpiece, hl => by
    rw [splitBlank, List.mem_singleton] at hpiece
    exact List.mem_append.mp (hpiece ▸ hl)
  | line :: next :: ls, chunk, piece, l, hpiece, hl => by
    rw [splitBlank] at hpiece
    split_ifs at hpiece with hblank hchunk
    · exact .inr (List.mem_cons_of_mem _ ((mem_of_mem_splitBlank hpiece hl).resolve_left List.not_mem_nil))
    · rcases List.mem_cons.mp hpiece with rfl | hpiece
      · exact .inl hl
      · exact .inr (List.mem_cons_of_mem _ ((mem_of_mem_splitBlank hpiece hl).resolve_left List.not_mem_nil))
    · rcases mem_of_mem_splitBlank hpiece hl with hl | hl
      · rcases List.mem_append.mp hl with hl | hl
        · exact .inl hl
        · exact .inr (List.mem_singleton.mp hl ▸ List.mem_cons_self)
      · exact .inr (List.mem_cons_of_mem _ hl)

theorem interior_of_mem_chunks {cs piece : List Char} (h : piece ∈ chunks cs) : ∀ l ∈ (lines piece).tail.dropLast, ¬isBlank l := by
  rw [chunks] at h
  cases hls : lines cs with
  | nil => exact absurd hls (lines_ne_nil cs)
  | cons first ls =>
    rw [hls] at h
    obtain ⟨part, hpart, rfl⟩ := List.mem_map.mp h
    by_cases hempty : part = []
    · rw [hempty]
      exact fun l hl => absurd hl List.not_mem_nil
    have hbreaks : ∀ l ∈ part, '\n' ∉ l := fun l hl => by
      have hmem : l ∈ lines cs := by
        rw [hls, List.mem_cons]
        exact (mem_of_mem_splitBlank hpart hl).imp_left List.mem_singleton.mp
      exact notMem_of_mem_splitOn hmem
    rw [lines_joinLines hbreaks hempty]
    exact interior_of_mem_splitBlank (fun l' hl' => absurd hl' List.not_mem_nil) part hpart

/-! ### Reading -/

/-- Behind something in the line, at its beginning, or behind white space there. -/
inductive Place
  | within
  | start
  | blank
  deriving DecidableEq

def read (p : Place) (c : Char) : Option Place :=
  if c = '\n' then if p = .within then some .start else none
  else if isSpace c then some (if p = .within then .within else .blank)
  else if c = '#' ∧ p = .start then none else some .within

def reads (p : Place) (cs : List Char) : Option Place := cs.foldlM read p

/-- No line but the first begins with a number sign, and none between the first and the last is blank. -/
def Calm (cs : List Char) : Prop :=
  (∀ l ∈ (lines cs).tail, l.head? ≠ some '#') ∧ ∀ l ∈ (lines cs).tail.dropLast, ¬isBlank l

theorem reads_append (p : Place) (cs cs' : List Char) : reads p (cs ++ cs') = (reads p cs).bind fun q => reads q cs' := List.foldlM_append ..

theorem reads_cons (p : Place) (c : Char) (cs : List Char) : reads p (c :: cs) = (read p c).bind fun q => reads q cs := rfl

/-- A line that something is before. -/
theorem reads_within {l : Line} (h : '\n' ∉ l) : reads .within l = some .within := by
  induction l with
  | nil => rfl
  | cons c l ih =>
    have hread : read .within c = some .within := by
      have hsign : ¬(c = '#' ∧ Place.within = .start) := fun h => absurd h.2 (by decide)
      rw [read, if_neg (List.ne_of_not_mem_cons h).symm, if_pos rfl, if_neg hsign, ite_self]
    rw [reads_cons, hread]
    exact ih (List.not_mem_of_not_mem_cons h)

theorem reads_blank {l : Line} (h : '\n' ∉ l) : reads .blank l = some (if isBlank l then .blank else .within) := by
  induction l with
  | nil => rfl
  | cons c l ih =>
    have hl := List.not_mem_of_not_mem_cons h
    rw [reads_cons, read, if_neg (List.ne_of_not_mem_cons h).symm, isBlank, List.all_cons]
    cases hspace : isSpace c with
    | true => exact ih hl
    | false =>
      have hsign : ¬(c = '#' ∧ Place.blank = .start) := fun h => absurd h.2 (by decide)
      rw [if_neg Bool.false_ne_true, if_neg hsign]
      exact reads_within hl

/-- A line from its beginning. -/
theorem reads_start {l : Line} (h : '\n' ∉ l) (hsign : l.head? ≠ some '#') :
    ∃ q, reads .start l = some q ∧ (q = .within ↔ ¬isBlank l) := by
  cases l with
  | nil => exact ⟨.start, rfl, iff_of_false (by decide) fun h => h rfl⟩
  | cons c l =>
    have hl := List.not_mem_of_not_mem_cons h
    have hread : read .start c = some (if isSpace c then .blank else .within) := by
      rw [read, if_neg (List.ne_of_not_mem_cons h).symm]
      split_ifs with hspace hc hc
      · exact absurd hc (by decide)
      · rfl
      · exact absurd (hc.1 ▸ rfl) hsign
      · rfl
    rw [reads_cons, hread, Option.bind_some, isBlank, List.all_cons]
    cases isSpace c with
    | true =>
      refine ⟨_, reads_blank hl, ?_⟩
      show (if isBlank l then Place.blank else .within) = .within ↔ ¬isBlank l
      split_ifs with hblank
      · exact iff_of_false (by decide) (not_not_intro hblank)
      · exact iff_of_true rfl hblank
    | false => exact ⟨_, reads_within hl, iff_of_true rfl Bool.false_ne_true⟩

theorem reads_sign (l : Line) : reads .start ('#' :: l) = none := rfl

theorem reads_newline (q : Place) (cs : List Char) : reads q ('\n' :: cs) = if q = .within then reads .start cs else none := by
  rw [reads_cons, read, if_pos rfl]
  split_ifs <;> rfl

/-- Lines one after the other: whether the reader gets through, and whether it is behind something then. -/
theorem reads_lines : ∀ {ls : List Line}, ls ≠ [] → (∀ l ∈ ls, '\n' ∉ l) →
    ((reads .start (joinLines ls)).isSome ↔ (∀ l ∈ ls, l.head? ≠ some '#') ∧ ∀ l ∈ ls.dropLast, ¬isBlank l) ∧
      (reads .start (joinLines ls) = some .within ↔ ∀ l ∈ ls, l.head? ≠ some '#' ∧ ¬isBlank l)
  | [], hne, _ => absurd rfl hne
  | l :: ls, _, hbreaks => by
    have hl := hbreaks l List.mem_cons_self
    by_cases hsign : l.head? = some '#'
    · obtain ⟨l', rfl⟩ : ∃ l', l = '#' :: l' := by
        cases l with
        | nil => exact absurd hsign nofun
        | cons c l' => exact ⟨l', by rw [Option.some_inj.mp hsign]⟩
      have hnone : reads .start (joinLines (('#' :: l') :: ls)) = none := by
        cases ls with
        | nil => rfl
        | cons next more => rfl
      rw [hnone]
      exact ⟨iff_of_false Bool.false_ne_true fun h => h.1 _ List.mem_cons_self hsign,
        iff_of_false nofun fun h => (h _ List.mem_cons_self).1 hsign⟩
    · obtain ⟨q, hq, hwithin⟩ := reads_start hl hsign
      cases ls with
      | nil =>
        rw [joinLines_singleton, hq]
        refine ⟨iff_of_true rfl ⟨?_, fun _ h => absurd h List.not_mem_nil⟩, ?_⟩
        · exact fun l' hl' => List.mem_singleton.mp hl' ▸ hsign
        · rw [Option.some_inj, hwithin]
          exact ⟨fun h l' hl' => List.mem_singleton.mp hl' ▸ ⟨hsign, h⟩, fun h => (h l List.mem_cons_self).2⟩
      | cons next more =>
        obtain ⟨hsome, hend⟩ := reads_lines (List.cons_ne_nil next more) fun l' hl' => hbreaks l' (List.mem_cons_of_mem _ hl')
        rw [joinLines_cons l (List.cons_ne_nil next more), reads_append, hq, Option.bind_some, reads_newline]
        by_cases hblank : isBlank l
        · rw [if_neg fun h => hwithin.mp h hblank]
          refine ⟨iff_of_false Bool.false_ne_true fun h => ?_, iff_of_false nofun fun h => (h l List.mem_cons_self).2 hblank⟩
          exact h.2 l (List.mem_cons_self ..) hblank
        · rw [if_pos (hwithin.mpr hblank), hsome, hend, List.dropLast_cons_cons]
          constructor
          · exact ⟨fun h => ⟨List.forall_mem_cons.mpr ⟨hsign, h.1⟩, List.forall_mem_cons.mpr ⟨hblank, h.2⟩⟩,
              fun h => ⟨(List.forall_mem_cons.mp h.1).2, (List.forall_mem_cons.mp h.2).2⟩⟩
          · exact ⟨fun h => List.forall_mem_cons.mpr ⟨⟨hsign, hblank⟩, h⟩, fun h => (List.forall_mem_cons.mp h).2⟩

/-- Something and lines behind it. -/
theorem reads_joinLines {first : Line} (hfirst : '\n' ∉ first) (hbreaks : ∀ l ∈ ls, '\n' ∉ l) :
    ((reads .within (joinLines (first :: ls))).isSome ↔ (∀ l ∈ ls, l.head? ≠ some '#') ∧ ∀ l ∈ ls.dropLast, ¬isBlank l) ∧
      (reads .within (joinLines (first :: ls)) = some .within ↔ ∀ l ∈ ls, l.head? ≠ some '#' ∧ ¬isBlank l) := by
  cases ls with
  | nil =>
    rw [joinLines_singleton, reads_within hfirst]
    exact ⟨iff_of_true rfl ⟨fun _ h => absurd h List.not_mem_nil, fun _ h => absurd h List.not_mem_nil⟩,
      iff_of_true rfl fun _ h => absurd h List.not_mem_nil⟩
  | cons next more =>
    rw [joinLines_cons first (List.cons_ne_nil next more), reads_append, reads_within hfirst, Option.bind_some, reads_newline, if_pos rfl]
    exact reads_lines (List.cons_ne_nil next more) hbreaks

theorem calm_iff (cs : List Char) : Calm cs ↔ (reads .within cs).isSome := by
  obtain ⟨first, ls, hls⟩ := List.exists_cons_of_ne_nil (lines_ne_nil cs)
  have hbreaks : ∀ l ∈ first :: ls, '\n' ∉ l := fun l hl => notMem_of_mem_splitOn (hls ▸ hl)
  have hread := (reads_joinLines (hbreaks first List.mem_cons_self) fun l hl => hbreaks l (List.mem_cons_of_mem _ hl)).1
  rw [← hls, joinLines_lines] at hread
  rw [hread, Calm, hls, List.tail_cons]

end Chunks
