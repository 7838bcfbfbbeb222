/-
# Prefixing URLs

`server/url_prefixer.go`: what the next handler writes goes through a window as
long as the longest attribute. A window that begins with an attribute gives the
attribute and the prefix; any other gives its first byte, and when nothing
follows, all of its bytes. So whether the prefix is inserted after an attribute
depends on how much of the stream is left behind it. `match` slices the window
to the length of the attribute, and of a window that has become shorter than
that it reads what the buffer happens to hold beyond its end; `hidden` stands
for these bytes, turn by turn.

Key definitions: `URLPrefixer`, `URLPrefixer.turn`, `URLPrefixer.serveHTTP`,
`URLPrefixer.Inserts`, `URLPrefixer.EndsFar`.
Key theorems: `turns_full`, `endsFar_of_turns`, `inserts_iff`.
-/
import Chronograf.Lib.Occurrences
import Mathlib.Data.UInt

namespace Chronograf
namespace Server

open Occurrences

abbrev Byte := UInt8

/-- `URLPrefixer`; `urlPrefix` is its `Prefix`. -/
structure URLPrefixer where
  urlPrefix : List Byte
  attrs : List (List Byte)

/-- `up.maxlen(targets...)` -/
def maxlen (targets : List (List Byte)) : ℕ :=
  targets.foldl (fun max tgt => if tgt.length > max then tgt.length else max) 0

/-- `up.match(subject, targets...)`, `hidden` being what follows the subject in
its array; a slice beyond that panics. -/
def matchTarget (subject hidden : List Byte) : List (List Byte) → Option (ℕ × List Byte)
  | [] => some (0, [])
  | target :: targets =>
    if (subject ++ hidden).length < target.length then none
    else if (subject ++ hidden).take target.length = target then some (target.length, target)
    else matchTarget subject hidden targets

/-- The window, the bytes that have not been scanned, and the bytes written. -/
structure Window where
  buf : List Byte
  rest : List Byte
  out : List Byte
  deriving DecidableEq

/-- What a turn of the loop ends in. -/
inductive Turn
  | on (st : Window)
  | done (out : List Byte)
  | panicked
  deriving DecidableEq

namespace URLPrefixer

variable (up : URLPrefixer)

/-- A turn of the loop. -/
def turn (hidden : List Byte) (st : Window) : Turn :=
  match matchTarget st.buf hidden up.attrs with
  | none => .panicked
  | some (matchlen, m) =>
    if matchlen = 0 then
      match st.rest with
      | c :: rest => .on ⟨st.buf.drop 1 ++ [c], rest, st.out ++ st.buf.take 1⟩
      | [] => .done (st.out ++ st.buf)
    else
      -- nothing is added to the window for a byte that the scanner does not have
      .on ⟨st.buf.drop matchlen ++ st.rest.take matchlen, st.rest.drop matchlen, st.out ++ m ++ up.urlPrefix⟩

/-- At most `n` turns. -/
def turns (hidden : ℕ → List Byte) : ℕ → Window → Turn
  | 0, st => .on st
  | n + 1, st =>
    match up.turn (hidden 0) st with
    | .on st => turns (fun k => hidden (k + 1)) n st
    | t => t

/-- The window that `io.ReadFull` fills; where the stream is too short for it,
zeros are left. -/
def primed (stream : List Byte) : Window :=
  let m := maxlen up.attrs
  ⟨stream.take m ++ List.replicate (m - stream.length) 0, stream.drop m, []⟩

/-- The regular expression `.svg$`. -/
def isSVG (url : List Char) : Bool :=
  match url.reverse with
  | 'g' :: 'v' :: 's' :: c :: _ => c ≠ '\n'
  | _ => false

/-- `ServeHTTP`: what is written when the next handler writes `stream`. -/
def serveHTTP (flusher : Bool) (url : List Char) (hidden : ℕ → List Byte) (n : ℕ) (stream : List Byte) : Turn :=
  if flusher = false ∨ isSVG url = true then .done stream
  else up.turns hidden n (up.primed stream)

/-- Whatever the buffer holds beyond the window, the call ends with the stream
and the prefix inserted after each occurrence of an attribute. -/
def Inserts (flusher : Bool) (url : List Char) (stream : List Byte) : Prop :=
  ∀ hidden, ∃ n, up.serveHTTP flusher url hidden n stream = .done (insertAfter up.attrs up.urlPrefix stream)

/-- Behind every occurrence there are as many bytes as the longest attribute
has; without a prefix to insert, only behind those that begin that far from the
end. -/
def EndsFar (stream : List Byte) : Prop :=
  ∀ o ∈ found up.attrs stream, maxlen up.attrs ≤ o.2.length ∨
    up.urlPrefix = [] ∧ o.1.length + o.2.length < maxlen up.attrs

end URLPrefixer

/-! ### `maxlen` and `match` -/

section Match

variable {ts : List (List Byte)} {t buf : List Byte}

theorem maxlen_foldl (ts : List (List Byte)) (m : ℕ) :
    ts.foldl (fun max tgt => if tgt.length > max then tgt.length else max) m = max m (maxlen ts) := by
  have hstep : ∀ (m : ℕ) (t : List Byte), (if t.length > m then t.length else m) = max m t.length := by
    intro m t
    split <;> omega
  unfold maxlen
  simp only [hstep]
  induction ts generalizing m with
  | nil => simp
  | cons t ts ih => rw [List.foldl_cons, List.foldl_cons, ih, ih (max 0 t.length)]; omega

theorem maxlen_cons : maxlen (t :: ts) = max t.length (maxlen ts) := by
  rw [maxlen, List.foldl_cons, maxlen_foldl]
  split <;> omega

theorem le_maxlen (ht : t ∈ ts) : t.length ≤ maxlen ts := by
  induction ts with
  | nil => cases ht
  | cons t' ts ih =>
    rw [maxlen_cons]
    rcases List.mem_cons.mp ht with rfl | ht
    · exact le_max_left _ _
    · exact (ih ht).trans (le_max_right _ _)

theorem exists_length_maxlen (hts : ts ≠ []) : ∃ t ∈ ts, t.length = maxlen ts := by
  induction ts with
  | nil => exact absurd rfl hts
  | cons t ts ih =>
    rw [maxlen_cons]
    rcases Nat.le_total (maxlen ts) t.length with hle | hle
    · exact ⟨t, List.mem_cons_self, (max_eq_left hle).symm⟩
    · by_cases hnil : ts = []
      · subst hnil
        exact ⟨t, List.mem_cons_self, (max_eq_left (Nat.zero_le _)).symm⟩
      · obtain ⟨t', ht', hlen⟩ := ih hnil
        exact ⟨t', List.mem_cons_of_mem _ ht', by rw [max_eq_right hle, hlen]⟩

/-- A window that no target is longer than: the first one that the stream
continues with is found. -/
theorem matchTarget_full (hidden r : List Byte) (hle : ∀ t ∈ ts, t.length ≤ buf.length) :
    matchTarget buf hidden ts = some (match first ts (buf ++ r) with
      | some p => (p.length, p)
      | none => (0, [])) := by
  induction ts with
  | nil => rfl
  | cons t ts ih =>
    obtain ⟨ht, hts⟩ := List.forall_mem_cons.mp hle
    have hfits : ¬ (buf ++ hidden).length < t.length := by
      rw [List.length_append]
      omega
    have htake : (buf ++ hidden).take t.length = t ↔ t.isPrefixOf (buf ++ r) = true := by
      rw [List.isPrefixOf_iff_prefix, List.prefix_iff_eq_take, List.take_append_of_le_length ht,
        List.take_append_of_le_length ht, eq_comm]
    rw [matchTarget, if_neg hfits, first, List.find?_cons]
    by_cases h : (buf ++ hidden).take t.length = t
    · rw [if_pos h, htake.mp h]
    · rw [if_neg h, Bool.eq_false_iff.mpr (mt htake.mpr h)]
      exact ih hts

/-- A window that some target is longer than, with nothing behind it. -/
theorem matchTarget_short (hne : ∀ t ∈ ts, t ≠ []) (hlong : ∃ t ∈ ts, buf.length < t.length) :
    matchTarget buf [] ts = none ∨ ∃ p, p ≠ [] ∧ matchTarget buf [] ts = some (p.length, p) := by
  induction ts with
  | nil =>
    obtain ⟨t, ht, -⟩ := hlong
    cases ht
  | cons t ts ih =>
    rw [matchTarget, List.append_nil]
    by_cases hlt : buf.length < t.length
    · exact .inl (if_pos hlt)
    · rw [if_neg hlt]
      by_cases h : buf.take t.length = t
      · exact .inr ⟨t, hne t List.mem_cons_self, if_pos h⟩
      · rw [if_neg h]
        refine ih (fun t ht => hne t (List.mem_cons_of_mem _ ht)) ?_
        obtain ⟨t', ht', hlong⟩ := hlong
        rcases List.mem_cons.mp ht' with rfl | ht'
        · exact absurd hlong hlt
        · exact ⟨t', ht', hlong⟩

end Match

namespace URLPrefixer

/-- The bytes of an ASCII text. -/
def ascii (text : String) : List Byte := text.toList.map fun c => c.toNat.toUInt8

/-- `NewDefaultURLPrefixer` -/
def newDefaultURLPrefixer (urlPrefix : List Byte) : URLPrefixer where
  urlPrefix := urlPrefix
  attrs := [ascii "src=\"", ascii "href=\"", ascii "url(", ascii "data-basepath=\""]

variable {up : URLPrefixer} {s out : List Byte} {hidden : ℕ → List Byte} {n : ℕ} {st st' : Window}

/-! ### A full window -/

/-- The window on what is left of the stream. -/
def window (up : URLPrefixer) (s out : List Byte) : Window := ⟨s.take (maxlen up.attrs), s.drop (maxlen up.attrs), out⟩

theorem matchTarget_window (h : List Byte) (hs : maxlen up.attrs ≤ s.length) :
    matchTarget (up.window s out).buf h up.attrs = some (match first up.attrs s with
      | some p => (p.length, p)
      | none => (0, [])) := by
  have hlen : (s.take (maxlen up.attrs)).length = maxlen up.attrs := List.length_take_of_le hs
  have hle : ∀ t ∈ up.attrs, t.length ≤ (s.take (maxlen up.attrs)).length := by
    intro t ht
    rw [hlen]
    exact le_maxlen ht
  have hfull := matchTarget_full h (s.drop (maxlen up.attrs)) hle
  rwa [List.take_append_drop] at hfull

theorem turn_of_first (hne : ∀ p ∈ up.attrs, p ≠ []) (h : List Byte) (hs : maxlen up.attrs ≤ s.length) {p : List Byte}
    (hp : first up.attrs s = some p) :
    up.turn h (up.window s out) = .on (up.window (s.drop p.length) (out ++ p ++ up.urlPrefix)) := by
  have hmem := (first_some hp).1
  have hle := le_maxlen hmem
  have hpos : p.length ≠ 0 := by simpa using hne p hmem
  have hbuf : (s.take (maxlen up.attrs)).drop p.length ++ (s.drop (maxlen up.attrs)).take p.length =
      (s.drop p.length).take (maxlen up.attrs) := by
    obtain ⟨k, hk⟩ := Nat.exists_eq_add_of_le' hle
    rw [hk, List.drop_take, Nat.add_sub_cancel, List.take_add, List.drop_drop, Nat.add_comm p.length k]
  have hrest : (s.drop (maxlen up.attrs)).drop p.length = (s.drop p.length).drop (maxlen up.attrs) := by
    rw [List.drop_drop, List.drop_drop, Nat.add_comm]
  rw [turn, matchTarget_window h hs, hp]
  simp only [hpos, if_false]
  rw [window, window, hbuf, hrest]

/-- Nothing is left to scan. -/
theorem turn_last (h : List Byte) (hs : s.length = maxlen up.attrs) (hp : first up.attrs s = none) :
    up.turn h (up.window s out) = .done (out ++ s) := by
  rw [turn, matchTarget_window h hs.ge, hp]
  simp only [if_true, window]
  rw [List.drop_eq_nil_of_le hs.le, List.take_of_length_le hs.le]

theorem turn_of_none {a : Byte} (h : List Byte) (hpos : 0 < maxlen up.attrs) (hs : maxlen up.attrs ≤ s.length)
    (hp : first up.attrs (a :: s) = none) : up.turn h (up.window (a :: s) out) = .on (up.window s (out ++ [a])) := by
  obtain ⟨m, hm⟩ := Nat.exists_eq_succ_of_ne_zero hpos.ne'
  rw [turn, matchTarget_window h (by rw [List.length_cons]; omega), hp]
  simp only [if_true, window]
  rw [hm] at hs ⊢
  rw [List.drop_succ_cons, List.take_succ_cons]
  rcases hdrop : s.drop m with _ | ⟨c, rest⟩
  · have hlen := congrArg List.length hdrop
    rw [List.length_drop, List.length_nil] at hlen
    omega
  · have htake : s.take (m + 1) = s.take m ++ [c] := by
      rw [List.take_add, hdrop]
      rfl
    have hrest : s.drop (m + 1) = rest := by rw [← List.drop_drop, hdrop]; rfl
    simp [htake, hrest]

theorem turns_succ_on (h : up.turn (hidden 0) st = .on st') :
    up.turns hidden (n + 1) st = up.turns (fun k => hidden (k + 1)) n st' := by
  rw [turns, h]

/-- However many turns it takes, the loop ends in one way. -/
theorem turns_done_inj {k : ℕ} {a b : List Byte} (hn : up.turns hidden n st = .done a)
    (hk : up.turns hidden k st = .done b) : a = b := by
  induction n generalizing st hidden k with
  | zero => cases hn
  | succ n ih =>
    cases k with
    | zero => cases hk
    | succ k =>
      rw [turns] at hn hk
      rcases hturn : up.turn (hidden 0) st with st' | out | _
      · rw [hturn] at hn hk
        exact ih hn hk
      · rw [hturn] at hn hk
        exact (Turn.done.inj hn).symm.trans (Turn.done.inj hk)
      · rw [hturn] at hn
        cases hn

/-! ### The loop over a stream that is long enough -/

theorem EndsFar.of_first (hne : ∀ p ∈ up.attrs, p ≠ []) {p : List Byte} (hp : first up.attrs s = some p) :
    up.EndsFar s ↔ (maxlen up.attrs ≤ (s.drop p.length).length ∨ up.urlPrefix = [] ∧ s.length < maxlen up.attrs) ∧
      up.EndsFar (s.drop p.length) := by
  unfold EndsFar
  rw [found_of_first hne hp, List.forall_mem_cons, length_split hp]

theorem EndsFar.of_none {a : Byte} (hp : first up.attrs (a :: s) = none) : up.EndsFar (a :: s) ↔ up.EndsFar s := by
  unfold EndsFar
  rw [found_cons hp]

/-- The whole stream goes through a full window when every occurrence ends far
from its end. -/
theorem turns_full (hne : ∀ p ∈ up.attrs, p ≠ []) (hpos : 0 < maxlen up.attrs) (s : List Byte) :
    up.EndsFar s → maxlen up.attrs ≤ s.length → ∀ hidden out, ∃ n,
      up.turns hidden n (up.window s out) = .done (out ++ insertAfter up.attrs up.urlPrefix s) := by
  induction s using scan_induction hne with
  | nil =>
    intro _ hs
    rw [List.length_nil] at hs
    omega
  | occurrence s p hp hlt ih =>
    intro hfar hs hidden out
    obtain ⟨hend | ⟨-, hshort⟩, hrest⟩ := (EndsFar.of_first hne hp).mp hfar
    · obtain ⟨n, hn⟩ := ih hrest hend (fun k => hidden (k + 1)) (out ++ p ++ up.urlPrefix)
      refine ⟨n + 1, ?_⟩
      rw [turns_succ_on (turn_of_first hne (hidden 0) hs hp), hn, insertAfter_of_first hne hp]
      simp
    · omega
  | place a s hp ih =>
    intro hfar hs hidden out
    rcases hs.lt_or_eq with hmore | hlast
    · have hs' : maxlen up.attrs ≤ s.length := by
        rw [List.length_cons] at hmore
        omega
      obtain ⟨n, hn⟩ := ih ((EndsFar.of_none hp).mp hfar) hs' (fun k => hidden (k + 1)) (out ++ [a])
      refine ⟨n + 1, ?_⟩
      rw [turns_succ_on (turn_of_none (hidden 0) hpos hs' hp), hn, insertAfter_cons hp]
      simp
    · refine ⟨1, ?_⟩
      have hsame : insertAfter up.attrs up.urlPrefix (a :: s) = a :: s := by
        refine (insertAfter_eq_self_iff hne).mpr ?_
        by_contra hno
        obtain ⟨hinsert, hfound⟩ := not_or.mp hno
        obtain ⟨o, ho⟩ := List.exists_mem_of_ne_nil _ hfound
        -- an occurrence at the end of the stream would have to be followed by a whole window
        have hlen := (length_of_found hne ho).2
        have hone := List.length_pos_iff.mpr (hne o.1 (length_of_found hne ho).1)
        rcases hfar o ho with hend | ⟨hnil, -⟩
        · omega
        · exact hinsert hnil
      rw [turns, turn_last (hidden 0) hlast.symm hp, hsame]

/-- A window that has become too short for the longest attribute: without
anything behind it in the array, the loop does not end but by a panic. -/
theorem not_done_of_short (hne : ∀ p ∈ up.attrs, p ≠ []) (hlong : ∃ t ∈ up.attrs, st.buf.length < t.length)
    (hrest : st.rest = []) : up.turns (fun _ => []) n st ≠ .done out := by
  induction n generalizing st with
  | zero => simp [turns]
  | succ n ih =>
    rcases matchTarget_short hne hlong with hpanic | ⟨p, hp, hmatch⟩
    · rw [turns, turn, hpanic]
      simp
    · have hturn : up.turn [] st = .on ⟨st.buf.drop p.length, [], st.out ++ p ++ up.urlPrefix⟩ := by
        have hlen : p.length ≠ 0 := by simpa using hp
        rw [turn, hmatch]
        simp [hlen, hrest]
      rw [turns_succ_on hturn]
      obtain ⟨t, ht, hlt⟩ := hlong
      refine ih ⟨t, ht, ?_⟩ rfl
      rw [List.length_drop]
      omega

/-- Only then. -/
theorem endsFar_of_turns (hne : ∀ p ∈ up.attrs, p ≠ []) (hpos : 0 < maxlen up.attrs) (s : List Byte) :
    maxlen up.attrs ≤ s.length → ∀ out, (∀ hidden, ∃ n,
      up.turns hidden n (up.window s out) = .done (out ++ insertAfter up.attrs up.urlPrefix s)) → up.EndsFar s := by
  -- every run goes on from the state that the first turn leads to
  have hnext : ∀ {st st' : Window} {out : List Byte}, (∀ h, up.turn h st = .on st') →
      (∀ hidden, ∃ n, up.turns hidden n st = .done out) → ∀ hidden, ∃ n, up.turns hidden n st' = .done out := by
    intro st st' out hturn hall hidden
    obtain ⟨n, hn⟩ := hall fun k => hidden (k - 1)
    cases n with
    | zero => cases hn
    | succ n =>
      rw [turns_succ_on (hturn _)] at hn
      exact ⟨n, hn⟩
  induction s using scan_induction hne with
  | nil =>
    intro hs
    rw [List.length_nil] at hs
    omega
  | occurrence s p hp hlt ih =>
    intro hs out hall
    have hall' := hnext (fun h => turn_of_first hne h hs hp) hall
    have hend : maxlen up.attrs ≤ (s.drop p.length).length := by
      by_contra hshort
      obtain ⟨n, hn⟩ := hall' fun _ => []
      have hts : up.attrs ≠ [] := List.ne_nil_of_mem (first_some hp).1
      obtain ⟨t, ht, hlen⟩ := exists_length_maxlen hts
      refine not_done_of_short hne ⟨t, ht, ?_⟩ (List.drop_eq_nil_of_le (by omega)) hn
      rw [hlen]
      exact lt_of_le_of_lt (List.length_take_le' _ _) (by omega)
    refine (EndsFar.of_first hne hp).mpr ⟨.inl hend, ih hend (out ++ p ++ up.urlPrefix) fun hidden => ?_⟩
    obtain ⟨n, hn⟩ := hall' hidden
    refine ⟨n, hn.trans ?_⟩
    rw [insertAfter_of_first hne hp]
    simp
  | place a s hp ih =>
    intro hs out hall
    rcases hs.lt_or_eq with hmore | hlast
    · have hs' : maxlen up.attrs ≤ s.length := by
        rw [List.length_cons] at hmore
        omega
      refine (EndsFar.of_none hp).mpr (ih hs' (out ++ [a]) fun hidden => ?_)
      obtain ⟨n, hn⟩ := hnext (fun h => turn_of_none h hpos hs' hp) hall hidden
      refine ⟨n, hn.trans ?_⟩
      rw [insertAfter_cons hp]
      simp
    · have hsame : insertAfter up.attrs up.urlPrefix (a :: s) = a :: s := by
        obtain ⟨n, hn⟩ := hall fun _ => []
        cases n with
        | zero => cases hn
        | succ n =>
          rw [turns, turn_last [] hlast.symm hp] at hn
          exact (List.append_cancel_left (Turn.done.inj hn)).symm
      intro o ho
      rcases (insertAfter_eq_self_iff hne).mp hsame with hnil | hnone
      · rw [found_cons hp] at ho
        have hlen := (length_of_found hne ho).2
        rw [List.length_cons] at hlast
        exact .inr ⟨hnil, by omega⟩
      · rw [hnone] at ho
        cases ho

/-! ### The handler -/

/-- Without attributes the stream goes through. -/
theorem turns_of_no_attrs (hnil : up.attrs = []) (st : Window) : ∀ hidden, ∃ n,
    up.turns hidden n st = .done (st.out ++ st.buf ++ st.rest) := by
  obtain ⟨buf, rest, out⟩ := st
  induction rest generalizing buf out with
  | nil =>
    intro hidden
    exact ⟨1, by simp [turns, turn, hnil, matchTarget]⟩
  | cons c rest ih =>
    intro hidden
    obtain ⟨n, hn⟩ := ih (buf.drop 1 ++ [c]) (out ++ buf.take 1) fun k => hidden (k + 1)
    have hturn : up.turn (hidden 0) ⟨buf, c :: rest, out⟩ = .on ⟨buf.drop 1 ++ [c], rest, out ++ buf.take 1⟩ := by
      simp [turn, hnil, matchTarget]
    refine ⟨n + 1, ?_⟩
    rw [turns_succ_on hturn, hn]
    have hbuf : buf.take 1 ++ (buf.drop 1 ++ c :: rest) = buf ++ c :: rest := by
      rw [← List.append_assoc, List.take_append_drop]
    simp only [List.append_assoc, List.singleton_append, hbuf]

/-- The prefix is inserted where it belongs, and nothing else happens, exactly
when every occurrence ends far from the end of a stream that fills the window.
A shorter stream is padded with zeros, and one that is passed on unread comes
out right if nothing is to be inserted. -/
theorem inserts_iff (up : URLPrefixer) (hne : ∀ p ∈ up.attrs, p ≠ []) (flusher : Bool) (url : List Char)
    (stream : List Byte) : up.Inserts flusher url stream ↔
      if flusher = false ∨ isSVG url = true then up.urlPrefix = [] ∨ found up.attrs stream = []
      else if maxlen up.attrs ≤ stream.length then up.EndsFar stream
      else first up.attrs (stream ++ List.replicate (maxlen up.attrs - stream.length) 0) = none ∧
        stream ++ List.replicate (maxlen up.attrs - stream.length) 0 = insertAfter up.attrs up.urlPrefix stream := by
  unfold Inserts serveHTTP
  by_cases hpass : flusher = false ∨ isSVG url = true
  · simp only [if_pos hpass, Turn.done.injEq, exists_const, forall_const]
    rw [eq_comm, insertAfter_eq_self_iff hne]
  simp only [if_neg hpass]
  by_cases hlong : maxlen up.attrs ≤ stream.length
  · rw [if_pos hlong]
    have hprimed : up.primed stream = up.window stream [] := by
      simp [primed, window, Nat.sub_eq_zero_of_le hlong]
    rw [hprimed]
    by_cases hnil : up.attrs = []
    · have hnone : found up.attrs stream = [] := by
        refine List.eq_nil_iff_forall_not_mem.mpr fun o ho => ?_
        have hmem := (length_of_found hne ho).1
        rw [hnil] at hmem
        cases hmem
      constructor
      · intro _ o ho
        rw [hnone] at ho
        cases ho
      · intro _ hidden
        obtain ⟨n, hn⟩ := turns_of_no_attrs hnil (up.window stream []) hidden
        refine ⟨n, hn.trans ?_⟩
        rw [insertAfter_of_found_nil hne hnone]
        simp [window]
    · obtain ⟨t, ht, hlen⟩ := exists_length_maxlen hnil
      have hpos : 0 < maxlen up.attrs := by
        rw [← hlen]
        exact List.length_pos_iff.mpr (hne t ht)
      exact ⟨endsFar_of_turns hne hpos stream hlong [], fun hfar hidden => turns_full hne hpos stream hfar hlong hidden []⟩
  · rw [if_neg hlong]
    generalize hs : stream ++ List.replicate (maxlen up.attrs - stream.length) 0 = s
    have hslen : s.length = maxlen up.attrs := by
      rw [← hs, List.length_append, List.length_replicate]
      omega
    have hprimed : up.primed stream = up.window s [] := by
      have htake : stream.take (maxlen up.attrs) = stream := List.take_of_length_le (by omega)
      have hdrop : stream.drop (maxlen up.attrs) = [] := List.drop_eq_nil_of_le (by omega)
      rw [primed, window, htake, hdrop, hs, List.take_of_length_le hslen.le, List.drop_eq_nil_of_le hslen.le]
    rw [hprimed]
    rcases hp : first up.attrs s with _ | p
    · have hdone : ∀ hidden n, up.turns hidden (n + 1) (up.window s []) = .done s := by
        intro hidden n
        rw [turns, turn_last (hidden 0) hslen hp, List.nil_append]
      simp only [true_and]
      constructor
      · intro hall
        obtain ⟨n, hn⟩ := hall fun _ => []
        cases n with
        | zero => cases hn
        | succ n =>
          rw [hdone] at hn
          exact Turn.done.inj hn
      · intro heq hidden
        exact ⟨1, by rw [hdone, heq]⟩
    · -- the attribute leaves a window that is too short
      simp only [reduceCtorEq, false_and, iff_false]
      intro hall
      obtain ⟨n, hn⟩ := hall fun _ => []
      obtain ⟨t, ht, hlen⟩ := exists_length_maxlen (List.ne_nil_of_mem (first_some hp).1)
      have hsplit := length_split hp
      have hone := List.length_pos_iff.mpr (hne p (first_some hp).1)
      cases n with
      | zero => cases hn
      | succ n =>
        rw [turns_succ_on (turn_of_first hne [] hslen.ge hp)] at hn
        refine not_done_of_short hne ⟨t, ht, ?_⟩ (List.drop_eq_nil_of_le (by omega)) hn
        rw [hlen]
        exact lt_of_le_of_lt (List.length_take_le' _ _) (by omega)

/-- Behind the one attribute there is a byte, as many as it has. -/
theorem letter_prefixed : (⟨ascii "/p", [ascii "a"]⟩ : URLPrefixer).Inserts true [] (ascii "ab") := by
  refine (inserts_iff ⟨ascii "/p", [ascii "a"]⟩ (by decide) true [] (ascii "ab")).mpr ?_
  rw [if_neg (by decide), if_pos (by decide)]
  intro o ho
  have hfirst : first [ascii "a"] (ascii "ab") = some (ascii "a") := by decide
  have hlast : found [ascii "a"] ((ascii "ab").drop (ascii "a").length) = [] := by
    rw [found_eq_nil_iff (by decide)]
    decide
  rw [found_of_first (by decide) hfirst, hlast, List.mem_singleton] at ho
  subst ho
  decide

/-- An image at the end of a page is not prefixed, and a page shorter than the
longest attribute gets zeros. -/
theorem last_image_missed :
    ¬ (newDefaultURLPrefixer (ascii "/p")).Inserts true "/".toList (ascii "0123456789<img src=\"/x\">") ∧
      ¬ (newDefaultURLPrefixer (ascii "/p")).Inserts true "/".toList (ascii "ok") := by
  have hne : ∀ p ∈ (newDefaultURLPrefixer (ascii "/p")).attrs, p ≠ [] := by decide +kernel
  constructor
  · intro h
    obtain ⟨n, hn⟩ := h fun _ => []
    have hrun : (newDefaultURLPrefixer (ascii "/p")).serveHTTP true "/".toList (fun _ => []) 10
        (ascii "0123456789<img src=\"/x\">") = .done (ascii "0123456789<img src=\"/x\">") := by decide +kernel
    have hsame := (insertAfter_eq_self_iff hne).mp (turns_done_inj hn hrun)
    rcases hsame with hnil | hnone
    · exact absurd hnil (by decide +kernel)
    · refine (found_eq_nil_iff hne).mp hnone (ascii "src=\"") (by decide +kernel) ?_
      exact ⟨ascii "0123456789<img ", ascii "/x\">", by decide +kernel⟩
  · intro h
    obtain ⟨n, hn⟩ := h fun _ => []
    have hrun : (newDefaultURLPrefixer (ascii "/p")).serveHTTP true "/".toList (fun _ => []) 1
        (ascii "ok") = .done (ascii "ok" ++ List.replicate 13 0) := by decide +kernel
    have hnone : found (newDefaultURLPrefixer (ascii "/p")).attrs (ascii "ok") = [] := by
      rw [found_eq_nil_iff hne]
      decide +kernel
    have hlen := congrArg List.length (turns_done_inj hn hrun)
    rw [insertAfter_of_found_nil hne hnone] at hlen
    exact absurd hlen (by decide +kernel)

end URLPrefixer
end Server
end Chronograf
