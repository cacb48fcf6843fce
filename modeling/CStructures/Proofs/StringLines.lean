import CStructures.Lib.Text
import CStructures.Model.String
import CStructures.Proofs.VectorBooks

/-!
# Lines of a stream

`string_getline` reads the pieces between the newlines one after another, except the one behind
the last newline, for which it has no terminator to return at.
-/

namespace CStructures
open Lib

/-- A piece of the stream without its carriage returns. -/
def lineText (piece : List Byte) : List Byte := piece.filter (· ≠ carriageReturn)

/-- The lines of a stream: its pieces without their carriage returns, as far as they are not
empty then. -/
def textLines (stream : List Byte) : List (List Byte) :=
  ((stream.splitOn newline).map lineText).filter (· ≠ [])

def completeLines (stream : List Byte) : List (List Byte) :=
  ((stream.splitOn newline).dropLast.map lineText).filter (· ≠ [])

def EndsComplete (stream : List Byte) : Prop :=
  ∀ piece ∈ (stream.splitOn newline).getLast?, ∀ c ∈ piece, c = carriageReturn

structure CsString.Holds (str : CsString) (text : List Byte) : Prop where
  content : slice str.buf.bytes 0 str.buf.count.toNat = text
  inside : ∃ d ∈ str.buf.data, text.length ≤ d.size

variable {stream piece rest line acc : List Byte} {str str' : CsString}

lemma lineText_eq_nil : lineText piece = [] ↔ ∀ c ∈ piece, c = carriageReturn := by
  simp [lineText, List.filter_eq_nil_iff]

lemma completeLines_last (h : newline ∉ stream) : completeLines stream = [] := by
  rw [completeLines, splitOn_last h]
  rfl

lemma completeLines_cut (h : newline ∉ piece) :
    completeLines (piece ++ newline :: rest) = [lineText piece].filter (· ≠ []) ++ completeLines rest := by
  have hne : rest.splitOn newline ≠ [] := by
    rw [← List.length_pos_iff, length_splitOn]
    omega
  rw [completeLines, splitOn_cut h, List.dropLast_cons_of_ne_nil hne, List.map_cons, completeLines,
    ← List.filter_append, List.singleton_append]

lemma textLines_eq (stream : List Byte) : textLines stream = completeLines stream ++
    ((stream.splitOn newline).getLast?.toList.map lineText).filter (· ≠ []) := by
  rw [completeLines, ← List.filter_append, ← List.map_append, textLines]
  rcases List.eq_nil_or_concat (stream.splitOn newline) with hnil | ⟨pieces, last, hlast⟩
  · rw [hnil]
    rfl
  · rw [hlast, List.concat_eq_append, List.dropLast_concat, List.getLast?_concat]
    rfl

lemma endsComplete_iff : EndsComplete stream ↔ textLines stream = completeLines stream := by
  rw [textLines_eq, List.append_right_eq_self, EndsComplete]
  cases (stream.splitOn newline).getLast? with
  | none => simp
  | some piece => simp [← lineText_eq_nil, List.filter_cons]

/-- The buffer is sound and holds the bytes `acc`. -/
structure CsString.Reading (str : CsString) (acc : List Byte) : Prop where
  sound : str.buf.Sound
  elementSize : str.buf.elementSize = 1
  elems : str.buf.toList = acc.map fun c => [c]

namespace CsString

lemma Reading.count (h : str.Reading acc) : str.buf.count.toNat = acc.length := by
  rw [← CsVector.length_toList, h.elems, List.length_map]

lemma Reading.count_eq_zero (h : str.Reading acc) : str.buf.count = 0 ↔ acc = [] := by
  rw [← UInt32.toNat_inj, h.count]
  exact List.length_eq_zero_iff

lemma Reading.holds (h : str.Reading acc) (hne : acc ≠ []) : str.Holds acc where
  content := by
    apply List.ext_getElem
    · rw [length_slice, h.count]
    · intro i hi hacc
      have helem : str.buf.elems i = [acc[i]] := by
        have hget := congrArg (fun l => l[i]?) h.elems
        simp only [CsVector.toList] at hget
        rw [List.getElem?_eq_getElem (by rw [length_tabulate, h.count]; exact hacc), getElem_tabulate,
          List.getElem?_eq_getElem (by rw [List.length_map]; exact hacc), List.getElem_map] at hget
        exact Option.some.inj hget
      have hstride : str.buf.elementSize.toNat = 1 := by rw [h.elementSize]; rfl
      rw [CsVector.elems, record, hstride] at helem
      rw [getElem_slice]
      have hfirst := congrArg List.head? helem
      simpa [slice] using hfirst
  inside := by
    have hpos := List.length_pos_iff.mpr hne
    have hcount := h.count
    have hle := h.sound.count_le
    obtain ⟨d, hd⟩ := Option.isSome_iff_exists.mp (h.sound.isSome (by omega))
    have hsize := h.sound.buffer d hd
    have hstride : str.buf.elementSize.toNat = 1 := by rw [h.elementSize]; rfl
    rw [hstride] at hsize
    exact ⟨d, hd, by omega⟩

theorem Reading.push (h : str.Reading acc) (hshort : acc.length < 2 ^ 31) (c : Byte) (g : Grant) :
    ∃ buf, vectorPush str.buf [c] (some g) = (0, buf) ∧ Reading ⟨buf⟩ (acc ++ [c]) := by
  have hstride : str.buf.elementSize.toNat = 1 := by rw [h.elementSize]; rfl
  have hcount := h.count
  have hlen : [c].length = str.buf.elementSize.toNat := hstride.symm
  have hwrap : str.buf.count = str.buf.capacity → 2 * str.buf.count.toNat < 2 ^ 32 := fun _ => by omega
  have hemplaces : str.buf.Emplaces (vectorEmplace str.buf (some g)) str.buf.count.toNat :=
    CsVector.emplace_spec h.sound hwrap g
  have hcap : (vectorPush str.buf [c] (some g)).2.capacity.toNat + 1 < 2 ^ 32 := by
    have hfits := h.sound.fits
    rw [hstride] at hfits
    change (vectorPush str.buf [c] (some g)).2.books.capacity.toNat + 1 < _
    rcases CsVector.push_books str.buf [c] (some g) with hsame | hpush
    · rw [hsame]
      change str.buf.capacity.toNat + 1 < _
      omega
    · rw [hpush, Books.pushed]
      split_ifs with hfull
      · have hdouble := CsVector.toNat_double (hwrap hfull)
        change (str.buf.books.reallocCapacity (str.buf.count * vecExpandFactor)).toNat + 1 < _
        unfold Books.reallocCapacity
        split_ifs
        · decide
        · omega
      · change str.buf.capacity.toNat + 1 < _
        omega
  obtain ⟨hok, hsound, hes, hlist⟩ := hemplaces.copy hlen (by rw [hstride, Nat.one_mul]; exact hcap)
  rw [CsVector.insertIdx_count, h.elems] at hlist
  refine ⟨_, Prod.ext hok rfl, hsound, hes.trans h.elementSize, ?_⟩
  rw [List.map_append]
  exact hlist

end CsString

/-- The bytes of a piece are pushed, without the carriage returns. -/
lemma getlineFrom_piece (grants : Nat → Grant) (h : str.Reading acc) (hmem : newline ∉ piece)
    (hshort : (acc ++ lineText piece).length ≤ 2 ^ 31) (pushes : Nat) (tail : List Byte) :
    ∃ pushes' str', str'.Reading (acc ++ lineText piece) ∧
      getlineFrom (fun n => some (grants n)) pushes str (piece ++ tail) =
        getlineFrom (fun n => some (grants n)) pushes' str' tail := by
  induction piece generalizing acc str pushes with
  | nil =>
    refine ⟨pushes, str, ?_, rfl⟩
    rw [lineText, List.filter_nil, List.append_nil]
    exact h
  | cons c piece ih =>
    have hrest : newline ∉ piece := fun hm => hmem (List.mem_cons_of_mem c hm)
    have hnl : c ≠ newline := by
      rintro rfl
      exact hmem List.mem_cons_self
    by_cases hcr : c = carriageReturn
    · have htext : lineText (c :: piece) = lineText piece := List.filter_cons_of_neg (by simp [hcr])
      rw [htext] at hshort ⊢
      obtain ⟨pushes', str', hread, heq⟩ := ih h hrest hshort pushes
      refine ⟨pushes', str', hread, ?_⟩
      rw [← heq, List.cons_append, getlineFrom, if_pos hcr]
    · have htext : lineText (c :: piece) = c :: lineText piece := List.filter_cons_of_pos (by simp [hcr])
      rw [htext] at hshort ⊢
      rw [List.length_append, List.length_cons] at hshort
      obtain ⟨buf, hpush, hpushed⟩ := h.push (by omega) c (grants pushes)
      obtain ⟨pushes', str', hread, heq⟩ := ih hpushed hrest
        (by rw [List.length_append, List.length_append, List.length_singleton]; omega) (pushes + 1)
      rw [List.append_assoc, List.singleton_append] at hread
      refine ⟨pushes', str', hread, ?_⟩
      rw [← heq, List.cons_append, getlineFrom, if_neg hcr, if_neg hnl, hpush]
      rfl

/-- Every piece of the stream is shorter than 2^31 bytes without its carriage returns. -/
def PiecesShort (stream : List Byte) : Prop :=
  ∀ piece ∈ stream.splitOn newline, (lineText piece).length < 2 ^ 31

/-- One call from a cleared buffer: the next complete line, or the end of the stream. -/
theorem getlineFrom_spec (grants : Nat → Grant) (stream : List Byte) (h : str.Reading [])
    (hshort : PiecesShort stream) (pushes : Nat) :
    (completeLines stream = [] ∧
      ∃ str', getlineFrom (fun n => some (grants n)) pushes str stream = (0, str', [])) ∨
    ∃ line rest str', completeLines stream = line :: completeLines rest ∧
      getlineFrom (fun n => some (grants n)) pushes str stream = (1, str', rest) ∧
      str'.Reading (line ++ [nullterm]) ∧ rest.length < stream.length ∧ PiecesShort rest := by
  induction stream using pieceInduction newline generalizing str pushes with
  | hlast piece hmem =>
    have hlen := hshort piece (by rw [splitOn_last hmem]; exact List.mem_singleton_self piece)
    obtain ⟨pushes', str', _, heq⟩ := getlineFrom_piece grants h hmem (by simpa using hlen.le) pushes []
    rw [List.append_nil] at heq
    exact Or.inl ⟨completeLines_last hmem, str', heq⟩
  | hcut piece rest hmem ih =>
    have hpieces : ∀ p ∈ piece :: rest.splitOn newline, (lineText p).length < 2 ^ 31 := by
      rw [← splitOn_cut hmem]
      exact hshort
    have hlen := hpieces piece List.mem_cons_self
    have hrest : PiecesShort rest := fun p hp => hpieces p (List.mem_cons_of_mem piece hp)
    obtain ⟨pushes', str', hread, heq⟩ :=
      getlineFrom_piece grants h hmem (by simpa using hlen.le) pushes (newline :: rest)
    rw [List.nil_append] at hread
    have hne : newline ≠ carriageReturn := by decide
    rw [heq, completeLines_cut hmem, getlineFrom, if_neg hne, if_pos rfl]
    by_cases hempty : lineText piece = []
    · rw [if_pos (hread.count_eq_zero.mpr hempty), List.filter_cons_of_neg (by simp [hempty])]
      rw [hempty] at hread
      rcases ih hread hrest pushes' with hend | ⟨line, rest', str'', hlines, hret, hstr, hlt, hshort'⟩
      · exact Or.inl hend
      · refine Or.inr ⟨line, rest', str'', hlines, hret, hstr, ?_, hshort'⟩
        rw [List.length_append, List.length_cons]
        omega
    · rw [if_neg (hread.count_eq_zero.not.mpr hempty), List.filter_cons_of_pos (by simp [hempty])]
      obtain ⟨buf, hpush, hpushed⟩ := hread.push hlen nullterm (grants pushes')
      refine Or.inr ⟨lineText piece, rest, ⟨buf⟩, rfl, ?_, hpushed, ?_, hrest⟩
      · rw [hpush]
        rfl
      · rw [List.length_append, List.length_cons]
        omega

lemma reading_clear (h : str.Reading acc) : CsString.Reading ⟨vectorClear str.buf⟩ [] where
  sound := CsVector.clear_sound h.sound
  elementSize := h.elementSize
  elems := rfl

lemma reading_init : stringInit.Reading [] where
  sound := ⟨by decide, le_rfl, by decide, by rintro d ⟨⟩, iff_of_true rfl rfl⟩
  elementSize := rfl
  elems := rfl

theorem getlines_spec (grants : Nat → Nat → Grant) (calls : Nat) (stream : List Byte)
    (h : str.Reading acc) (hshort : PiecesShort stream) (hcalls : stream.length < calls) :
    ∃ strs, getlines (fun i n => some (grants i n)) calls str stream = some strs ∧
      List.Forall₂ (fun str line => CsString.Holds str (line ++ [nullterm])) strs (completeLines stream) := by
  induction calls generalizing str acc stream with
  | zero => exact absurd hcalls (Nat.not_lt_zero _)
  | succ calls ih =>
    unfold getlines stringGetline
    rcases getlineFrom_spec (grants calls) stream (reading_clear h) hshort 0 with
      ⟨hlines, str', heq⟩ | ⟨line, rest, str', hlines, heq, hread, hlt, hrest⟩
    · rw [heq, hlines]
      exact ⟨[], rfl, .nil⟩
    · obtain ⟨strs, hstrs, hall⟩ := ih rest hread hrest (by omega)
      have hholds := hread.holds (List.append_ne_nil_of_right_ne_nil line (List.cons_ne_nil nullterm []))
      rw [heq, hlines]
      simp only [if_true, hstrs]
      exact ⟨str' :: strs, rfl, .cons hholds hall⟩

/-- The sizes of a buffer for bytes that has grown from nothing: a power of two that is at most
2^31, or nothing at all once the doubling has wrapped. -/
inductive Grown (b : Books) : Prop
  | fresh (hes : b.elementSize = 1) (hsize : b.size = none) (hcap : b.capacity = 0) (hcount : b.count = 0)
  | power (k : Nat) (hes : b.elementSize = 1) (hsize : b.size.isSome) (hk : k ≤ 31)
      (hcap : b.capacity.toNat = 2 ^ k) (hcount : b.count.toNat ≤ 2 ^ k)
  | wrapped (hes : b.elementSize = 1) (hsize : b.size = some 1) (hcap : b.capacity = 0)

namespace Grown

variable {b : Books}

lemma cleared (h : Grown b) : Grown { b with count := 0 } := by
  cases h with
  | fresh hes hsize hcap _ => exact .fresh hes hsize hcap rfl
  | power k hes hsize hk hcap _ => exact .power k hes hsize hk hcap (Nat.zero_le _)
  | wrapped hes hsize hcap => exact .wrapped hes hsize hcap

lemma pushed_of_room (h : Grown b) (hroom : b.count ≠ b.capacity) : Grown b.pushed := by
  unfold Books.pushed
  rw [if_neg hroom]
  cases h with
  | fresh hes hsize hcap hcount => exact absurd (hcount.trans hcap.symm) hroom
  | power k hes hsize hk hcap hcount =>
    have hne := UInt32.toNat_inj.not.mpr hroom
    have hlt : b.count.toNat < b.capacity.toNat := by omega
    refine .power k hes hsize hk hcap ?_
    change (b.count + 1).toNat ≤ _
    rw [toNat_succ hlt]
    omega
  | wrapped hes hsize hcap => exact .wrapped hes hsize hcap

lemma wrapped_request (hes : b.elementSize = 1) (n : UInt32) :
    Grown { b.withRequest 0 with count := n } := by
  refine .wrapped hes ?_ rfl
  change some ((0 + 1) * b.elementSize).toNat = some 1
  rw [hes]
  rfl

/-- A full buffer is doubled, until the doubled size wraps. -/
lemma pushed_of_full (h : Grown b) (hfull : b.count = b.capacity) : Grown b.pushed := by
  unfold Books.pushed
  rw [if_pos hfull]
  cases h with
  | fresh hes hsize hcap hcount =>
    have hrealloc : b.reallocCapacity (b.count * vecExpandFactor) = 32 := by
      unfold Books.reallocCapacity
      rw [hsize, hcount]
      rfl
    rw [hrealloc]
    refine .power 5 hes rfl (by decide) rfl ?_
    change (b.count + 1).toNat ≤ _
    rw [hcount]
    decide
  | power k hes hsize hk hcap _ =>
    have hpow : 2 ^ k ≤ 2 ^ 31 := Nat.pow_le_pow_right (by decide) hk
    have hdouble : (b.count * vecExpandFactor).toNat = 2 ^ k * 2 % 2 ^ 32 := by
      rw [UInt32.toNat_mul, hfull, hcap]
      rfl
    have hsucc : (b.count + 1).toNat = 2 ^ k + 1 := by
      rw [UInt32.toNat_add, hfull, hcap]
      change (2 ^ k + 1) % 2 ^ 32 = _
      omega
    rw [Books.reallocCapacity_of_isSome hsize]
    rcases Nat.lt_or_eq_of_le hk with hlt | rfl
    · have hnext : 2 ^ (k + 1) ≤ 2 ^ 31 := Nat.pow_le_pow_right (by decide) hlt
      have hpos : 1 ≤ 2 ^ k := Nat.one_le_two_pow
      rw [Nat.pow_succ] at hnext
      refine .power (k + 1) hes rfl hlt ?_ ?_
      · change (b.count * vecExpandFactor).toNat = _
        rw [hdouble, Nat.pow_succ]
        omega
      · change (b.count + 1).toNat ≤ _
        rw [hsucc, Nat.pow_succ]
        omega
    · have hzero : b.count * vecExpandFactor = 0 := UInt32.toNat_inj.mp hdouble
      rw [hzero]
      exact wrapped_request hes _
  | wrapped hes hsize hcap =>
    have hzero : b.count * vecExpandFactor = 0 := by
      rw [hfull, hcap]
      rfl
    rw [Books.reallocCapacity_of_isSome (by rw [hsize]; rfl), hzero]
    exact wrapped_request hes _

lemma pushed (h : Grown b) : Grown b.pushed := by
  by_cases hfull : b.count = b.capacity
  · exact h.pushed_of_full hfull
  · exact h.pushed_of_room hfull

lemma line_short (h : Grown str.buf.books) (hholds : str.Holds (line ++ [nullterm])) :
    line.length < 2 ^ 31 := by
  obtain ⟨d, hd, hsize⟩ := hholds.inside
  have hbooks : str.buf.books.size = some d.size := by
    change str.buf.data.map Block.size = _
    rw [hd]
    rfl
  have hcount : str.buf.count.toNat = line.length + 1 := by
    have hlen := congrArg List.length hholds.content
    rwa [length_slice, List.length_append] at hlen
  rw [List.length_append, List.length_singleton] at hsize
  cases h with
  | fresh _ hnone _ _ =>
    rw [hbooks] at hnone
    cases hnone
  | power k _ _ hk _ hle =>
    have hpow : 2 ^ k ≤ 2 ^ 31 := Nat.pow_le_pow_right (by decide) hk
    change str.buf.count.toNat ≤ 2 ^ k at hle
    omega
  | wrapped _ hone _ =>
    rw [hbooks, Option.some.injEq] at hone
    omega

lemma push (h : Grown str.buf.books) (c : Byte) (answer : AllocAnswer) :
    Grown (vectorPush str.buf [c] answer).2.books := by
  rcases CsVector.push_books str.buf [c] answer with hsame | hpush
  · rwa [hsame]
  · rw [hpush]
    exact h.pushed

lemma getlineFrom (answers : Nat → AllocAnswer) (h : Grown str.buf.books) (pushes : Nat) (stream : List Byte) :
    Grown (CStructures.getlineFrom answers pushes str stream).2.1.buf.books := by
  induction stream generalizing str pushes with
  | nil => exact h
  | cons c stream ih =>
    unfold CStructures.getlineFrom
    split_ifs with hcr hnl hzero
    · exact ih h pushes
    · exact ih h pushes
    · have hpush := h.push nullterm (answers pushes)
      simp only
      split_ifs
      · exact hpush
      · exact hpush
    · have hpush := h.push c (answers pushes)
      simp only
      split_ifs
      · exact hpush
      · exact ih hpush (pushes + 1)

lemma getlines {answers : Nat → Nat → AllocAnswer} {calls : Nat} {strs : List CsString}
    (h : Grown str.buf.books) (hret : CStructures.getlines answers calls str stream = some strs) :
    ∀ str' ∈ strs, Grown str'.buf.books := by
  induction calls generalizing str stream strs with
  | zero => cases hret
  | succ calls ih =>
    have hline := @getlineFrom ⟨vectorClear str.buf⟩ (answers calls) h.cleared 0 stream
    unfold CStructures.getlines stringGetline at hret
    simp only at hret
    split_ifs at hret with hone hzero
    · obtain ⟨tail, htail, rfl⟩ := Option.map_eq_some_iff.mp hret
      exact List.forall_mem_cons.mpr ⟨hline, ih hline htail⟩
    · cases hret
      exact List.forall_mem_nil _

end Grown

/-- Reading by lines returns the lines of the stream. -/
def ReadsLines (grants : Nat → Nat → Grant) (calls : Nat) (stream : List Byte) : Prop :=
  ∃ strs, getlines (fun i n => some (grants i n)) calls stringInit stream = some strs ∧
    List.Forall₂ (fun str line => CsString.Holds str (line ++ [nullterm])) strs (textLines stream)

lemma piecesShort_of_lines (h : ∀ line ∈ textLines stream, line.length < 2 ^ 31) : PiecesShort stream := by
  intro piece hpiece
  by_cases hempty : lineText piece = []
  · rw [hempty]
    decide
  · apply h
    apply List.mem_filter.mpr
    exact ⟨List.mem_map_of_mem hpiece, decide_eq_true hempty⟩

/-- `string_getline` called until it returns 0, on a stream in memory with all allocations
granted, returns the lines of the stream one after another exactly when nothing but carriage
returns is behind the last newline and every line has fewer than 2^31 bytes. -/
theorem getline_reads_lines (grants : Nat → Nat → Grant) (calls : Nat) (stream : List Byte)
    (hcalls : stream.length < calls) : ReadsLines grants calls stream ↔
      EndsComplete stream ∧ ∀ line ∈ textLines stream, line.length < 2 ^ 31 := by
  have hfresh : Grown stringInit.buf.books := .fresh rfl rfl rfl rfl
  constructor
  · rintro ⟨strs, hstrs, hall⟩
    have hboth := (List.forall₂_and_left strs (textLines stream)).mpr ⟨hfresh.getlines hstrs, hall⟩
    have hshort : ∀ line ∈ textLines stream, line.length < 2 ^ 31 := by
      have hflip := hboth.flip.imp fun line str h => And.intro (h.1.line_short h.2) h.2
      exact ((List.forall₂_and_left (textLines stream) strs).mp hflip).1
    refine ⟨?_, hshort⟩
    obtain ⟨strs', hstrs', hall'⟩ :=
      getlines_spec grants calls stream reading_init (piecesShort_of_lines hshort) hcalls
    cases hstrs.symm.trans hstrs'
    have hlen : (textLines stream).length = (completeLines stream).length :=
      hall.length_eq.symm.trans hall'.length_eq
    rw [endsComplete_iff]
    rw [textLines_eq, List.length_append] at hlen
    rw [textLines_eq, List.length_eq_zero_iff.mp (Nat.add_left_cancel (hlen.trans (Nat.add_zero _).symm)),
      List.append_nil]
  · rintro ⟨hend, hshort⟩
    unfold ReadsLines
    rw [endsComplete_iff.mp hend]
    exact getlines_spec grants calls stream reading_init (piecesShort_of_lines hshort) hcalls

/-- Two lines, with a carriage return and an empty line between them. -/
theorem getline_reads_lines_two : ReadsLines (fun _ _ => ⟨0x1000, fun _ => 7⟩) 7
    [97, carriageReturn, newline, newline, 98, newline] := by
  have hlines : textLines [97, carriageReturn, newline, newline, 98, newline] = [[97], [98]] := by
    decide
  apply (getline_reads_lines _ 7 _ (by decide)).mpr
  rw [endsComplete_iff, hlines]
  decide

/-- The line `a` at the end of a stream without a newline is lost. -/
theorem getline_loses_last : ¬ReadsLines (fun _ _ => ⟨0x1000, fun _ => 7⟩) 2 [97] := by
  rintro ⟨strs, hstrs, hall⟩
  cases hstrs
  cases hall

end CStructures
