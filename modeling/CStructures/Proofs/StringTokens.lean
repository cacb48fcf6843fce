import CStructures.Lib.Text
import CStructures.Model.String

/-!
# Tokens of a string

One call of `cs_stringok` takes the next piece between two delimiters, whatever the pieces are.
Driven by `*saveptr` the calls split the string exactly; driven by the result they end at the
first empty piece.
-/

namespace CStructures
open Lib

/-- The access is to one of the bytes at `off, …, off + n`. -/
def CharAccess.Within (off n : Nat) : CharAccess → Prop
  | .read i => off ≤ i ∧ i ≤ off + n
  | .write i => off ≤ i ∧ i ≤ off + n

lemma CharAccess.Within.widen {off n off' n' : Nat} {a : CharAccess} (h : a.Within off n)
    (hl : off' ≤ off) (hr : off + n ≤ off' + n') : a.Within off' n' := by
  cases a with
  | read i => exact ⟨by have := h.1; omega, by have := h.2; omega⟩
  | write i => exact ⟨by have := h.1; omega, by have := h.2; omega⟩

/-- The result of a call, NULL for the empty token, is the text `l`. -/
def IsToken (bytes : Bytes) : Option Int → List Byte → Prop
  | none, l => l = []
  | some p, l => 0 ≤ p ∧ l ≠ [] ∧ CString bytes p.toNat l

variable {bytes : Bytes} {off fuel : Nat} {delimiter : Byte} {l p rest : List Byte}

lemma strchr_succ (bytes : Bytes) (delimiter : Byte) (fuel off : Nat) :
    strchr bytes delimiter (fuel + 1) off =
      if bytes off = delimiter then ⟨some (some (off : Int)), [.read off]⟩
      else if bytes off = 0 then ⟨some none, [.read off]⟩
      else ⟨(strchr bytes delimiter fuel ((off + 1 : Nat) : Int)).val,
        .read off :: (strchr bytes delimiter fuel ((off + 1 : Nat) : Int)).log⟩ := by
  have hread : ∀ f : Byte → Logged CharAccess (Option (Option Int)),
      readChar bytes off >>= f = ⟨(f (bytes off)).val, .read off :: (f (bytes off)).log⟩ := fun _ => rfl
  rw [strchr, hread]
  split_ifs <;> rfl

/-- `strchr` reads past the characters `p` when none of them is the delimiter. -/
lemma strchr_past (h : CString bytes off (p ++ rest)) (hmem : delimiter ∉ p) (fuel : Nat) :
    let r := strchr bytes delimiter fuel ((off + p.length : Nat) : Int)
    (strchr bytes delimiter (fuel + p.length) off).val = r.val ∧
      ∀ a ∈ (strchr bytes delimiter (fuel + p.length) off).log, a.Within off p.length ∨ a ∈ r.log := by
  induction p generalizing off with
  | nil => exact ⟨rfl, fun a ha => Or.inr ha⟩
  | cons c p ih =>
    have hne : c ≠ delimiter := by
      rintro rfl
      exact hmem List.mem_cons_self
    obtain ⟨hval, hlog⟩ := ih h.tail (fun hm => hmem (List.mem_cons_of_mem c hm))
    have hend : off + (c :: p).length = off + 1 + p.length := by
      rw [List.length_cons]
      omega
    rw [hend, List.length_cons, ← Nat.add_assoc, strchr_succ, h.head, if_neg hne, if_neg h.head_ne_zero]
    refine ⟨hval, fun a ha => ?_⟩
    rcases List.mem_cons.mp ha with rfl | ha
    · exact Or.inl ⟨le_rfl, by omega⟩
    · exact (hlog a ha).imp_left fun hw => hw.widen (by omega) (by omega)

/-- The one character that `strchr` stops at. -/
lemma within_last {n : Nat} {a : CharAccess} (ha : a.Within off n ∨ a ∈ [.read ((off + n : Nat) : Int)]) :
    a.Within off n := by
  rcases ha with hw | ha
  · exact hw
  · rw [List.mem_singleton.mp ha]
    exact ⟨by omega, by omega⟩

lemma strchr_last (h : CString bytes off l) (hd : delimiter ≠ 0) (hmem : delimiter ∉ l)
    (hfuel : l.length < fuel) : (strchr bytes delimiter fuel off).val = some none ∧
      ∀ a ∈ (strchr bytes delimiter fuel off).log, a.Within off l.length := by
  obtain ⟨n, rfl⟩ : ∃ n, fuel = n + 1 + l.length := ⟨fuel - 1 - l.length, by omega⟩
  have h' : CString bytes off (l ++ []) := by rwa [List.append_nil]
  have hread : bytes (off + l.length) = 0 := h'.append.zero
  obtain ⟨hval, hlog⟩ := strchr_past h' hmem (n + 1)
  rw [strchr_succ, if_neg (by rw [hread]; exact hd.symm), if_pos hread] at hval hlog
  exact ⟨hval, fun a ha => within_last (hlog a ha)⟩

lemma strchr_cut (h : CString bytes off (p ++ delimiter :: rest)) (hmem : delimiter ∉ p)
    (hfuel : p.length < fuel) :
    (strchr bytes delimiter fuel off).val = some (some ((off + p.length : Nat) : Int)) ∧
      ∀ a ∈ (strchr bytes delimiter fuel off).log, a.Within off p.length := by
  obtain ⟨n, rfl⟩ : ∃ n, fuel = n + 1 + p.length := ⟨fuel - 1 - p.length, by omega⟩
  obtain ⟨hval, hlog⟩ := strchr_past h hmem (n + 1)
  rw [strchr_succ, if_pos h.append.head] at hval hlog
  exact ⟨hval, fun a ha => within_last (hlog a ha)⟩

def Resumes (str : Bool) (s : TokState) (off : Nat) : Prop :=
  (if str then some (-1) else s.saveptr) = some ((off : Int) - 1)

lemma resumes_start (s : TokState) : Resumes true s 0 := rfl

lemma resumes_next (bytes : Bytes) (off : Nat) : Resumes false ⟨bytes, some (off : Int)⟩ (off + 1) := by
  have hsub : ((off + 1 : Nat) : Int) - 1 = off := by omega
  unfold Resumes
  rw [if_neg Bool.false_ne_true, hsub]

variable {str : Bool} {s : TokState}

theorem csStringok_last (hs : Resumes str s off) (h : CString s.bytes off l) (hd : delimiter ≠ 0)
    (hmem : delimiter ∉ l) (hfuel : l.length < fuel) :
    (csStringok fuel str delimiter s).val =
      some (if l = [] then none else some (off : Int), ⟨s.bytes, none⟩) ∧
      ∀ a ∈ (csStringok fuel str delimiter s).log, a.Within off l.length := by
  obtain ⟨hval, hlog⟩ := strchr_last h hd hmem hfuel
  have hs' : (if str then some (-1) else s.saveptr) = some ((off : Int) - 1) := hs
  unfold csStringok
  simp only [hs', Int.sub_add_cancel, Logged.val_bind, Logged.log_bind, hval, readChar, Logged.val_ite,
    Logged.log_ite, Logged.val_pure, Logged.log_pure, Logged.log_tell, Int.toNat_natCast,
    h.first_eq_zero]
  refine ⟨by split_ifs <;> rfl, fun a ha => ?_⟩
  simp only [ite_self, List.append_nil, List.mem_append, List.mem_singleton] at ha
  rcases ha with ha | rfl
  · exact hlog a ha
  · exact ⟨le_rfl, by omega⟩

theorem csStringok_cut (hs : Resumes str s off) (h : CString s.bytes off (p ++ delimiter :: rest))
    (hmem : delimiter ∉ p) (hfuel : p.length < fuel) :
    (csStringok fuel str delimiter s).val = some (if p = [] then none else some (off : Int),
      ⟨memcpy s.bytes (off + p.length) [0], some ((off + p.length : Nat) : Int)⟩) ∧
      ∀ a ∈ (csStringok fuel str delimiter s).log, a.Within off p.length := by
  obtain ⟨hval, hlog⟩ := strchr_cut h hmem hfuel
  have hs' : (if str then some (-1) else s.saveptr) = some ((off : Int) - 1) := hs
  unfold csStringok
  simp only [hs', Int.sub_add_cancel, Logged.val_bind, Logged.log_bind, hval, readChar, writeChar,
    Logged.val_ite, Logged.log_ite, Logged.val_pure, Logged.log_pure, Logged.log_tell,
    Int.toNat_natCast, h.cut.1.first_eq_zero]
  refine ⟨by split_ifs <;> rfl, fun a ha => ?_⟩
  simp only [ite_self, List.append_nil, List.mem_append, List.mem_singleton] at ha
  rcases ha with ha | rfl | rfl
  · exact hlog a ha
  · exact ⟨by omega, by omega⟩
  · exact ⟨le_rfl, by omega⟩

/-- Every byte `c` among the `n` bytes from `off` is replaced by a zero. -/
def blanked (bytes : Bytes) (off n : Nat) (c : Byte) : Bytes :=
  fun i => if off ≤ i ∧ i < off + n ∧ bytes i = c then 0 else bytes i

lemma blanked_last (h : CString bytes off l) (hmem : delimiter ∉ l) :
    blanked bytes off l.length delimiter = bytes := by
  funext i
  apply if_neg
  rintro ⟨hl, hr, heq⟩
  have hget := h.chars (i - off) (by omega)
  rw [Nat.add_sub_cancel' hl, heq] at hget
  exact hmem (hget ▸ List.getElem_mem _)

lemma blanked_cut (h : CString bytes off (p ++ delimiter :: rest)) (hmem : delimiter ∉ p) :
    blanked (memcpy bytes (off + p.length) [0]) (off + p.length + 1) rest.length delimiter =
      blanked bytes off (p ++ delimiter :: rest).length delimiter := by
  have hlen : (p ++ delimiter :: rest).length = p.length + 1 + rest.length := by
    rw [List.length_append, List.length_cons]
    omega
  rw [hlen]
  funext i
  unfold blanked
  rcases Nat.lt_trichotomy i (off + p.length) with hlt | rfl | hgt
  · rw [memcpy_outside (Or.inl hlt), if_neg (by omega)]
    symm
    apply if_neg
    rintro ⟨hl, _, heq⟩
    have hget := h.chars (i - off) (by omega)
    rw [Nat.add_sub_cancel' hl, heq, List.getElem_append_left (by omega)] at hget
    exact hmem (hget ▸ List.getElem_mem _)
  · rw [if_neg (by omega), if_pos ⟨by omega, by omega, h.append.head⟩,
      memcpy_inside le_rfl (by rw [Nat.sub_self]; exact Nat.one_pos)]
    simp
  · rw [memcpy_outside (Or.inr (by rw [List.length_singleton]; omega))]
    apply if_congr _ rfl rfl
    constructor
    · rintro ⟨_, hr, heq⟩
      exact ⟨by omega, by omega, heq⟩
    · rintro ⟨_, hr, heq⟩
      exact ⟨by omega, by omega, heq⟩

lemma isToken_ite {m : Bytes} (h : CString m off p) :
    IsToken m (if p = [] then none else some (off : Int)) p := by
  by_cases hp : p = []
  · rw [if_pos hp]
    exact hp
  · rw [if_neg hp]
    exact ⟨Int.natCast_nonneg off, hp, h⟩

theorem tokensUntilSaved_spec (hd : delimiter ≠ 0) (l : List Byte) {calls : Nat} (hs : Resumes str s off)
    (h : CString s.bytes off l) (hfuel : l.length < fuel) (hcalls : l.count delimiter < calls) :
    ∃ results, (tokensUntilSaved fuel delimiter calls str s).val =
        some (results, ⟨blanked s.bytes off l.length delimiter, none⟩) ∧
      List.Forall₂ (IsToken (blanked s.bytes off l.length delimiter)) results (l.splitOn delimiter) ∧
      ∀ a ∈ (tokensUntilSaved fuel delimiter calls str s).log, a.Within off l.length := by
  induction l using pieceInduction delimiter generalizing off str s calls with
  | hlast l hmem =>
    obtain ⟨calls, rfl⟩ : ∃ n, calls = n + 1 := ⟨calls - 1, by omega⟩
    obtain ⟨hval, hlog⟩ := csStringok_last hs h hd hmem hfuel
    rw [blanked_last h hmem, splitOn_last hmem]
    unfold tokensUntilSaved
    simp only [Logged.val_bind, Logged.log_bind, hval, if_true, Logged.val_pure, Logged.log_pure,
      List.append_nil]
    exact ⟨_, rfl, .cons (isToken_ite h) .nil, hlog⟩
  | hcut p rest hmem ih =>
    obtain ⟨calls, rfl⟩ : ∃ n, calls = n + 1 := ⟨calls - 1, by omega⟩
    rw [List.length_append, List.length_cons] at hfuel
    rw [List.count_append, List.count_cons_self] at hcalls
    obtain ⟨hval, hlog⟩ := csStringok_cut hs h hmem (show p.length < fuel by omega)
    obtain ⟨results, hrest, htokens, hrestlog⟩ :=
      ih (resumes_next (memcpy s.bytes (off + p.length) [0]) (off + p.length)) h.cut.2 (by omega)
        (show rest.count delimiter < calls by omega)
    rw [blanked_cut h hmem] at hrest htokens
    have hfirst : CString (blanked s.bytes off (p ++ delimiter :: rest).length delimiter) off p := by
      rw [← blanked_cut h hmem]
      apply h.cut.1.congr
      intro i hi
      exact if_neg (by omega)
    rw [splitOn_cut hmem]
    unfold tokensUntilSaved
    simp only [Logged.val_bind, Logged.log_bind, hval, reduceCtorEq, if_false, hrest, Logged.log_pure,
      List.append_nil]
    refine ⟨_, rfl, .cons (isToken_ite hfirst) htokens, fun a ha => ?_⟩
    rw [List.length_append, List.length_cons]
    rcases List.mem_append.mp ha with ha | ha
    · exact (hlog a ha).widen le_rfl (by omega)
    · exact (hrestlog a ha).widen (by omega) (by omega)

/-- Calling `cs_stringok` until `*saveptr` is NULL splits the string exactly: one more call than
there are delimiters, tokens that joined by the delimiter give the string, every delimiter
replaced by a zero, and no access outside the string and its terminator. -/
theorem saved_tokens_split {text : List Byte} {saveptr : Option Int} {calls : Nat}
    (hd : delimiter ≠ 0) (htext : CString bytes 0 text) (hfuel : text.length < fuel)
    (hcalls : text.count delimiter < calls) :
    ∃ results final, (tokensUntilSaved fuel delimiter calls true ⟨bytes, saveptr⟩).val =
        some (results, ⟨final, none⟩) ∧
      results.length = text.count delimiter + 1 ∧
      (∃ tokens, List.Forall₂ (IsToken final) results tokens ∧ [delimiter].intercalate tokens = text) ∧
      (∀ i, final i = if i < text.length ∧ bytes i = delimiter then 0 else bytes i) ∧
      ∀ a ∈ (tokensUntilSaved fuel delimiter calls true ⟨bytes, saveptr⟩).log, a.Within 0 text.length := by
  obtain ⟨results, hval, htokens, hlog⟩ :=
    tokensUntilSaved_spec hd text (resumes_start ⟨bytes, saveptr⟩) htext hfuel hcalls
  refine ⟨results, _, hval, ?_, ⟨_, htokens, List.intercalate_splitOn delimiter⟩, fun i => ?_, hlog⟩
  · rw [htokens.length_eq, length_splitOn]
  · unfold blanked
    simp only [Nat.zero_le, true_and, Nat.zero_add]

def textBytes (text : List Byte) : Bytes := fun i => text.getD i 0

lemma cstring_textBytes {text : List Byte} (h : 0 ∉ text) : CString (textBytes text) 0 text where
  chars := by
    intro i hi
    rw [Nat.zero_add, textBytes, List.getD_eq_getElem _ _ hi]
  zero := by
    rw [Nat.zero_add, textBytes, List.getD_eq_default _ _ le_rfl]
  nonzero := h

theorem saved_tokens_split_awkward :
    ∃ results final, (tokensUntilSaved 9 44 9 true ⟨textBytes [44, 97, 44, 44, 98], none⟩).val =
        some (results, ⟨final, none⟩) ∧ results.length = 4 ∧
      ∃ tokens, List.Forall₂ (IsToken final) results tokens ∧
        [44].intercalate tokens = [44, 97, 44, 44, 98] := by
  have hd : (44 : Byte) ≠ 0 := by decide
  have htext := cstring_textBytes (show (0 : Byte) ∉ [44, 97, 44, 44, 98] by decide)
  have hfuel : [44, 97, 44, 44, (98 : Byte)].length < 9 := by decide
  have hcalls : [44, 97, 44, 44, 98].count (44 : Byte) < 9 := by decide
  obtain ⟨results, final, hval, hlen, htokens, _⟩ := saved_tokens_split hd htext hfuel hcalls
  exact ⟨results, final, hval, hlen, htokens⟩

/-- The calls until NULL, on the text from `off`: they stop at the first empty piece. -/
theorem tokensUntilNull_spec (hd : delimiter ≠ 0) (l : List Byte) {calls : Nat} (hs : Resumes str s off)
    (h : CString s.bytes off l) (hfuel : l.length < fuel) (hcalls : l.count delimiter + 1 < calls) :
    ∃ tokens final, (tokensUntilNull fuel delimiter calls str s).val = some (tokens, final) ∧
      List.Forall₂ (fun token piece => IsToken final.bytes (some token) piece) tokens
        ((l.splitOn delimiter).takeWhile (· ≠ [])) ∧
      ∀ i < off, final.bytes i = s.bytes i := by
  induction l using pieceInduction delimiter generalizing off str s calls with
  | hlast l hmem =>
    obtain ⟨calls, rfl⟩ : ∃ n, calls = n + 2 := ⟨calls - 2, by omega⟩
    obtain ⟨hval, _⟩ := csStringok_last hs h hd hmem hfuel
    rw [splitOn_last hmem]
    unfold tokensUntilNull
    simp only [Logged.val_bind, hval]
    by_cases hl : l = []
    · rw [if_pos hl, hl]
      exact ⟨_, _, rfl, .nil, fun _ _ => rfl⟩
    · have hend : (tokensUntilNull fuel delimiter (calls + 1) false ⟨s.bytes, none⟩).val =
          some ([], ⟨s.bytes, none⟩) := rfl
      rw [if_neg hl, List.takeWhile_cons_of_pos (by simpa using hl)]
      simp only [Logged.val_bind, hend]
      exact ⟨_, _, rfl, .cons ⟨Int.natCast_nonneg off, hl, h⟩ .nil, fun _ _ => rfl⟩
  | hcut p rest hmem ih =>
    obtain ⟨calls, rfl⟩ : ∃ n, calls = n + 1 := ⟨calls - 1, by omega⟩
    rw [List.length_append, List.length_cons] at hfuel
    rw [List.count_append, List.count_cons_self] at hcalls
    obtain ⟨hval, _⟩ := csStringok_cut hs h hmem (show p.length < fuel by omega)
    have hbefore : ∀ i < off + p.length, memcpy s.bytes (off + p.length) [0] i = s.bytes i :=
      fun i hi => memcpy_outside (Or.inl hi)
    rw [splitOn_cut hmem]
    unfold tokensUntilNull
    simp only [Logged.val_bind, hval]
    by_cases hp : p = []
    · rw [if_pos hp, List.takeWhile_cons_of_neg (by simpa using hp)]
      exact ⟨_, _, rfl, .nil, fun i hi => hbefore i (by omega)⟩
    · obtain ⟨tokens, final, hrest, htokens, hframe⟩ :=
        ih (resumes_next (memcpy s.bytes (off + p.length) [0]) (off + p.length)) h.cut.2 (by omega)
          (show rest.count delimiter + 1 < calls by omega)
      have hfirst : CString final.bytes off p := by
        apply h.cut.1.congr
        intro i hi
        exact hframe (off + i) (by omega)
      rw [if_neg hp, List.takeWhile_cons_of_pos (by simpa using hp)]
      simp only [Logged.val_bind, hrest]
      refine ⟨_, _, rfl, .cons ⟨Int.natCast_nonneg off, hp, hfirst⟩ htokens, fun i hi => ?_⟩
      rw [hframe i (by omega)]
      exact hbefore i (by omega)

/-- The calls until NULL return pointers to exactly the non-empty pieces of `text`, in order. -/
def YieldsTokens (fuel calls : Nat) (delimiter : Byte) (s : TokState) (text : List Byte) : Prop :=
  ∃ tokens final, (tokensUntilNull fuel delimiter calls true s).val = some (tokens, final) ∧
    List.Forall₂ (fun token piece => IsToken final.bytes (some token) piece) tokens
      ((text.splitOn delimiter).filter (· ≠ []))

/-- Calling `cs_stringok` until it returns NULL yields every token exactly when, from a delimiter
that stands first or behind another one on, the string has only delimiters. -/
theorem null_tokens_complete {text : List Byte} {saveptr : Option Int} {calls : Nat}
    (hd : delimiter ≠ 0) (htext : CString bytes 0 text) (hfuel : text.length < fuel)
    (hcalls : text.count delimiter + 1 < calls) :
    YieldsTokens fuel calls delimiter ⟨bytes, saveptr⟩ text ↔ EmptyPiecesLast delimiter text := by
  obtain ⟨tokens, final, hval, htokens, _⟩ :=
    tokensUntilNull_spec hd text (resumes_start ⟨bytes, saveptr⟩) htext hfuel hcalls
  rw [← filter_eq_takeWhile_iff]
  constructor
  · rintro ⟨tokens', final', hval', htokens'⟩
    rw [hval, Option.some.injEq, Prod.mk.injEq] at hval'
    obtain ⟨rfl, rfl⟩ := hval'
    have hsub := takeWhile_sublist_filter (· ≠ []) (text.splitOn delimiter)
    exact (hsub.eq_of_length (htokens.length_eq.symm.trans htokens'.length_eq)).symm
  · intro heq
    refine ⟨tokens, final, hval, ?_⟩
    rw [heq]
    exact htokens

theorem null_tokens_complete_trailing :
    YieldsTokens 9 9 44 ⟨textBytes [97, 44, 98, 44, 44], none⟩ [97, 44, 98, 44, 44] := by
  have htext := cstring_textBytes (show (0 : Byte) ∉ [97, 44, 98, 44, 44] by decide)
  have hlast : EmptyPiecesLast (44 : Byte) [97, 44, 98, 44, 44] :=
    filter_eq_takeWhile_iff.mp (by decide)
  apply (null_tokens_complete _ htext _ _).mpr hlast
  · decide
  · decide
  · decide

/-- The string ",a" has a token, and the first call returns NULL. -/
theorem null_tokens_miss : CString (textBytes [44, 97]) 0 [44, 97] ∧
    ([44, 97].splitOn (44 : Byte)).filter (· ≠ []) = [[97]] ∧
    ((tokensUntilNull 9 44 9 true ⟨textBytes [44, 97], none⟩).val.map Prod.fst) = some [] ∧
    ¬YieldsTokens 9 9 44 ⟨textBytes [44, 97], none⟩ [44, 97] := by
  have hval : (tokensUntilNull 9 44 9 true ⟨textBytes [44, 97], none⟩).val.map Prod.fst = some [] := by
    decide
  have hpieces : ([44, 97].splitOn (44 : Byte)).filter (· ≠ []) = [[97]] := by decide
  refine ⟨cstring_textBytes (by decide), hpieces, hval, ?_⟩
  rintro ⟨tokens, final, htokens, hall⟩
  rw [htokens, Option.map_some, Option.some.injEq] at hval
  rw [hpieces] at hall
  have hlen := hall.length_eq
  dsimp only at hval
  rw [hval] at hlen
  cases hlen

end CStructures
