import CStructures.Lib.Mixing
import CStructures.Model.Hash
import Mathlib.Data.Set.Card

/-!
# The one-at-a-time hash

`hash32_jenkins_oaat` against the published algorithm whose name it carries, and what its
steps keep of a difference between two keys. The code ends with `hash ^= hash >> 1`, where
the published algorithm has `hash ^= hash >> 11`.
-/

namespace CStructures
open Lib

def oneAtATimeStep (h : UInt32) (b : Byte) : UInt32 :=
  let h := h + b.toUInt32
  let h := h + (h <<< 10)
  h ^^^ (h >>> 6)

/-- The state of the published algorithm after the last byte. -/
def oneAtATimeState (key : List Byte) : UInt32 := key.foldl oneAtATimeStep 0

def oneAtATimeFinish (h : UInt32) : UInt32 :=
  let h := h + (h <<< 3)
  let h := h ^^^ (h >>> 11)
  h + (h <<< 15)

/-- Jenkins's one-at-a-time hash, as published. -/
def oneAtATime (key : List Byte) : UInt32 := oneAtATimeFinish (oneAtATimeState key)

example : oneAtATime [97] = 0xca2e9442 := by decide

def oaatFinish (hash : UInt32) : UInt32 :=
  let hash := hash + (hash <<< 3)
  let hash := hash ^^^ (hash >>> 1)
  hash + (hash <<< 15)

lemma hash32JenkinsOaat_eq (key : List Byte) :
    hash32JenkinsOaat key = oaatFinish (oneAtATimeState key) := rfl

lemma oneAtATimeState_snoc (key : List Byte) (b : Byte) :
    oneAtATimeState (key ++ [b]) = oneAtATimeStep (oneAtATimeState key) b := by
  simp [oneAtATimeState]

lemma oneAtATimeStep_injective_state (b : Byte) : Function.Injective (oneAtATimeStep · b) := by
  have hadd : Function.Injective fun h : UInt32 => h + b.toUInt32 := by
    intro x y h
    exact (UInt32.add_left_inj _).mp h
  have hshift := @add_shiftLeft_injective_uint32 10 (by decide)
  have hxor := @xor_shiftRight_injective_uint32 6 (by decide)
  exact hxor.comp (hshift.comp hadd)

lemma oneAtATimeStep_injective_byte (h : UInt32) : Function.Injective (oneAtATimeStep h) := by
  have hadd : Function.Injective fun b : Byte => h + b.toUInt32 := by
    intro b c hbc
    exact UInt8.toUInt32_inj.mp ((UInt32.add_right_inj _).mp hbc)
  have hshift := @add_shiftLeft_injective_uint32 10 (by decide)
  have hxor := @xor_shiftRight_injective_uint32 6 (by decide)
  exact hxor.comp (hshift.comp hadd)

def oaatNext (key : Bytes) (s : UInt32 × UInt32) : UInt32 × UInt32 :=
  (oneAtATimeStep s.1 (key s.2.toNat), s.2 + 1)

lemma oaatNext_iterate (key : Bytes) {n : Nat} (hn : n < 2 ^ 32) :
    (oaatNext key)^[n] (0, 0) = (oneAtATimeState (slice key 0 n), UInt32.ofNat n) := by
  induction n with
  | zero => rfl
  | succ n ih =>
    have hidx : (UInt32.ofNat n).toNat = n :=
      UInt32.toNat_ofNat_of_lt' (by change n < 2 ^ 32; omega)
    have hslice : slice key 0 (n + 1) = slice key 0 n ++ [key n] := by
      simp [slice, List.range_succ]
    rw [Function.iterate_succ_apply', ih (by omega), oaatNext, hslice, oneAtATimeState_snoc, hidx]
    simp [UInt32.ofNat_add]

lemma hash32JenkinsOaatWithin_loop (key : Bytes) (len : UInt64) (fuel : Nat) :
    hash32JenkinsOaatWithin fuel key len =
      (loop (fun s : UInt32 × UInt32 => if s.2.toUInt64 = len then some s.1 else none)
        (oaatNext key) fuel (0, 0)).map oaatFinish := by
  unfold hash32JenkinsOaatWithin
  change Option.bind _ (fun hash => some (oaatFinish hash)) = _
  rw [Option.map_eq_bind]
  rfl

/-- For a length below 2^32 the loop ends after one pass for each byte. -/
theorem hash32JenkinsOaatWithin_eq (key : Bytes) {len : UInt64} {fuel : Nat} (hlen : len.toNat < 2 ^ 32)
    (hfuel : len.toNat < fuel) :
    hash32JenkinsOaatWithin fuel key len = some (hash32JenkinsOaat (slice key 0 len.toNat)) := by
  have hstate : ∀ n < 2 ^ 32, ((oaatNext key)^[n] (0, 0)).2.toUInt64.toNat = n := by
    intro n hn
    rw [oaatNext_iterate key hn, UInt32.toNat_toUInt64]
    exact UInt32.toNat_ofNat_of_lt' hn
  have hloop : loop (fun s : UInt32 × UInt32 => if s.2.toUInt64 = len then some s.1 else none)
      (oaatNext key) fuel (0, 0) = some (oneAtATimeState (slice key 0 len.toNat)) := by
    apply loop_eq_some_iff.mpr
    refine ⟨len.toNat, hfuel, ?_, ?_⟩
    · intro k hk
      apply if_neg
      intro heq
      have := hstate k (by omega)
      rw [heq] at this
      omega
    · rw [if_pos (UInt64.toNat_inj.mp (hstate _ hlen)), oaatNext_iterate key hlen]
  rw [hash32JenkinsOaatWithin_loop, hloop]
  rfl

/-- From a length of 2^32 on the index never reaches it. -/
theorem hash32JenkinsOaatWithin_eq_none (key : Bytes) {len : UInt64} (hlen : 2 ^ 32 ≤ len.toNat)
    (fuel : Nat) : hash32JenkinsOaatWithin fuel key len = none := by
  have hnever : ∀ s : UInt32 × UInt32, s.2.toUInt64 ≠ len := by
    intro s heq
    have hlt := s.2.toNat_lt
    rw [← UInt32.toNat_toUInt64, heq] at hlt
    omega
  have hloop : loop (fun s : UInt32 × UInt32 => if s.2.toUInt64 = len then some s.1 else none)
      (oaatNext key) fuel (0, 0) = none := by
    apply Option.eq_none_iff_forall_ne_some.mpr
    intro r hr
    obtain ⟨n, _, _, hn⟩ := loop_eq_some_iff.mp hr
    rw [if_neg (hnever _)] at hn
    cases hn
  rw [hash32JenkinsOaatWithin_loop, hloop]
  rfl

lemma shift_one_eq_eleven_iff (a : UInt32) : a >>> 1 = a >>> 11 ↔ a = 0 ∨ a = 1 := by
  constructor
  · intro h
    have hn := congrArg UInt32.toNat h
    simp only [UInt32.toNat_shiftRight, Nat.shiftRight_eq_div_pow] at hn
    change a.toNat / 2 ^ 1 = a.toNat / 2 ^ 11 at hn
    rw [← UInt32.toNat_inj, ← UInt32.toNat_inj]
    change a.toNat = 0 ∨ a.toNat = 1
    omega
  · rintro (rfl | rfl) <;> rfl

lemma ninefold_eq_iff (h : UInt32) :
    (h + (h <<< 3) = 0 ∨ h + (h <<< 3) = 1) ↔ h = 0 ∨ h = 0x38E38E39 := by
  have hinj := @add_shiftLeft_injective_uint32 3 (by decide)
  exact or_congr (hinj.eq_iff' rfl) (hinj.eq_iff' rfl)

lemma oaatFinish_eq_published_iff (h : UInt32) :
    oaatFinish h = oneAtATimeFinish h ↔ h = 0 ∨ h = 0x38E38E39 := by
  calc oaatFinish h = oneAtATimeFinish h
    _ ↔ (h + (h <<< 3)) ^^^ ((h + (h <<< 3)) >>> 1) = (h + (h <<< 3)) ^^^ ((h + (h <<< 3)) >>> 11) :=
      (@add_shiftLeft_injective_uint32 15 (by decide)).eq_iff
    _ ↔ (h + (h <<< 3)) >>> 1 = (h + (h <<< 3)) >>> 11 := UInt32.xor_right_inj _
    _ ↔ h + (h <<< 3) = 0 ∨ h + (h <<< 3) = 1 := shift_one_eq_eleven_iff _
    _ ↔ h = 0 ∨ h = 0x38E38E39 := ninefold_eq_iff h

/-- The hash is the published one exactly when the state after the last byte is 0, or the word
whose ninefold is 1. -/
theorem jenkins_published_iff (key : List Byte) :
    hash32JenkinsOaat key = oneAtATime key ↔
      oneAtATimeState key = 0 ∨ oneAtATimeState key = 0x38E38E39 := by
  rw [hash32JenkinsOaat_eq, oneAtATime]
  exact oaatFinish_eq_published_iff _

theorem jenkins_not_published : hash32JenkinsOaat [97] ≠ oneAtATime [97] := by decide

/-- A last byte makes the hash the published one for at most two of its values. -/
theorem jenkins_published_rare (key : List Byte) :
    {b : Byte | hash32JenkinsOaat (key ++ [b]) = oneAtATime (key ++ [b])}.encard ≤ 2 := by
  rw [← (oneAtATimeStep_injective_byte (oneAtATimeState key)).encard_image]
  have hsub : oneAtATimeStep (oneAtATimeState key) ''
      {b : Byte | hash32JenkinsOaat (key ++ [b]) = oneAtATime (key ++ [b])} ⊆ {0, 0x38E38E39} := by
    rintro _ ⟨b, hb, rfl⟩
    rw [← oneAtATimeState_snoc]
    exact (oaatFinish_eq_published_iff _).mp hb
  exact (Set.encard_le_encard hsub).trans (Set.encard_pair (by decide)).le

lemma oaatFinish_injective : Function.Injective oaatFinish := by
  have hfirst := @add_shiftLeft_injective_uint32 3 (by decide)
  have hxor := @xor_shiftRight_injective_uint32 1 (by decide)
  have hlast := @add_shiftLeft_injective_uint32 15 (by decide)
  exact hlast.comp (hxor.comp hfirst)

/-- Two keys of one length that differ in exactly one byte have different hashes. -/
theorem jenkins_one_byte {key key' : List Byte} (hlen : key.length = key'.length)
    (hdiff : ∃! i : Nat, key[i]? ≠ key'[i]?) : hash32JenkinsOaat key ≠ hash32JenkinsOaat key' := by
  obtain ⟨pre, b, c, post, hbc, rfl, rfl⟩ := exists_of_differ_once hlen hdiff
  rw [hash32JenkinsOaat_eq, hash32JenkinsOaat_eq]
  apply oaatFinish_injective.ne
  exact foldl_ne_of_ne oneAtATimeStep_injective_state oneAtATimeStep_injective_byte hbc pre post 0

theorem jenkins_one_byte_example : hash32JenkinsOaat [1, 2, 3] ≠ hash32JenkinsOaat [1, 7, 3] := by
  apply @jenkins_one_byte [1, 2, 3] [1, 7, 3] rfl
  refine ⟨1, by decide, ?_⟩
  rintro (_ | _ | _ | n) hn <;> simp_all

end CStructures
