import CStructures.Proofs.MemoryBooks
import CStructures.Proofs.SharedHeapCalls

/-!
# The tracker accounts for the containers

Over the C library as over the tracking functions the containers of a client act on their own.
What `memory_deinit` reports are the blocks of the containers that have not been destroyed, and
the strings that `string_create` has lost.
-/

namespace CStructures
open Lib

section Heaps

variable {σ : Type} {S : System σ} {live : σ → BlockMap} {junk : σ → Bytes}

def LiveBlocks (live : σ → BlockMap) (s : σ) (m : BlockMap) : Prop := live s = m

lemma plainHeap_realloc {p n : UInt64} {r : AllocAnswer} {s s' : σ}
    (h : (plainHeap S junk).realloc p n s = some (r, s')) :
    ∃ q, S.realloc p n s = some (q, s') ∧ r = if q = 0 then none else some ⟨q, junk s'⟩ := by
  obtain ⟨q, s1, hrealloc, h⟩ := bind_eq_some.mp h
  obtain ⟨_, _, hget, h⟩ := bind_eq_some.mp h
  obtain ⟨rfl, rfl⟩ := get_eq_some.mp hget
  obtain ⟨rfl, rfl⟩ := pure_eq_some.mp h
  exact ⟨q, hrealloc, rfl⟩

theorem plainHeap_keeps (hS : S.Conforms live) (junk : σ → Bytes) :
    (plainHeap S junk).Keeps Grant.addr (LiveBlocks live) where
  malloc := by
    rintro s _ n r s' rfl hn h
    obtain ⟨g, rfl, hfresh, hlive⟩ := hS.malloc hn h
    exact ⟨g, rfl, hfresh.absent, hlive⟩
  realloc := by
    rintro s _ p n r s' rfl hp hn h
    obtain ⟨q, hrealloc, rfl⟩ := plainHeap_realloc h
    obtain ⟨hfresh, hlive⟩ := hS.realloc (Or.inr hp) hn hrealloc
    rw [if_neg hfresh.nonNull]
    exact ⟨_, rfl, hfresh.absent, hlive⟩
  free := by
    rintro s _ p u s' rfl hp h
    obtain ⟨s'', hfree, hlive⟩ := hS.free hp
    obtain ⟨_, rfl⟩ := Prod.mk.inj (Option.some.inj (h.symm.trans hfree))
    exact hlive

/-- The tracker after well-behaved calls from `c₀` on, which have left the blocks of `m`. -/
def Tracked (S : System σ) (live : σ → BlockMap) (c₀ c : Memory σ) (m : BlockMap) : Prop :=
  Balanced live c m ∧ ∃ calls, Run (MemoryStep S) (c₀, ∅) calls (c, m)

lemma Tracked.step {c₀ c c' : Memory σ} {m : BlockMap} {call : MemoryCall} {answer : UInt64} {fuel : Nat}
    (hS : S.Conforms live) (h : Tracked S live c₀ c m) (hwell : call.WellBehaved m)
    (hcall : memoryCall S fuel c call = some (answer, c')) :
    Tracked S live c₀ c' (blocksAfterCall m (call, answer)) := by
  obtain ⟨hbalanced, calls, hrun⟩ := h
  have hstep : MemoryStep S (c, m) (call, answer) (c', blocksAfterCall m (call, answer)) :=
    ⟨hwell, ⟨fuel, hcall⟩, rfl⟩
  exact ⟨(hbalanced.step hS hstep).1, _, hrun.snoc hstep⟩

lemma Tracked.malloc {c₀ c c' : Memory σ} {m : BlockMap} {n : UInt64} {block : Option Block} {fuel : Nat}
    (hS : S.Conforms live) (h : Tracked S live c₀ c m) (hn : 0 < n)
    (hcall : cstructuresMalloc S fuel n c = some (block, c')) :
    ∃ b, block = some b ∧ b.addr ∉ m ∧ Tracked S live c₀ c' (m.insert b.addr n) := by
  obtain ⟨g, rfl, hnull, _⟩ := h.1.malloc hS hn hcall
  have hfresh : g.addr ∉ m := by
    rcases cstructuresMalloc_cases hcall with ⟨_, _, hno, _⟩ | ⟨g', s', _, hmalloc, hr, _⟩
    · cases hno
    · obtain ⟨g'', hg, hfresh, _⟩ := hS.malloc hn hmalloc
      rw [Option.some.injEq] at hg hr
      subst hg
      have haddr : g.addr = g'.addr := congrArg Block.addr hr
      rw [haddr]
      exact (h.1.owned.within.fresh hfresh).absent
  have hanswer : memoryCall S fuel c (.malloc n) = some (g.addr, c') :=
    Option.map_eq_some_iff.mpr ⟨_, hcall, rfl⟩
  have htracked := h.step hS (show (MemoryCall.malloc n).WellBehaved m from hn) hanswer
  rw [blocksAfterCall, if_neg hnull] at htracked
  exact ⟨_, rfl, hfresh, htracked⟩

lemma trackedHeap_realloc {p n : UInt64} {r : AllocAnswer} {c c' : Memory σ} {fuel : Nat}
    (h : (trackedHeap S junk fuel).realloc p n c = some (r, c')) :
    ∃ q, cstructuresRealloc S fuel p n c = some (q, c') ∧
      r = if q = 0 then none else some ⟨q, junk c'.system⟩ := by
  obtain ⟨q, c1, hrealloc, h⟩ := bind_eq_some.mp h
  obtain ⟨_, _, hget, h⟩ := bind_eq_some.mp h
  obtain ⟨rfl, rfl⟩ := get_eq_some.mp hget
  obtain ⟨rfl, rfl⟩ := pure_eq_some.mp h
  exact ⟨q, hrealloc, rfl⟩

theorem trackedHeap_keeps (hS : S.Conforms live) (junk : σ → Bytes) (c₀ : Memory σ) (fuel : Nat) :
    (trackedHeap S junk fuel).Keeps Grant.addr (Tracked S live c₀) where
  malloc := by
    intro c m n r c' htracked hn h
    obtain ⟨block, c1, hmalloc, h⟩ := bind_eq_some.mp h
    obtain ⟨rfl, rfl⟩ := pure_eq_some.mp h
    obtain ⟨b, rfl, hfresh, htracked'⟩ := htracked.malloc hS hn hmalloc
    exact ⟨_, rfl, hfresh, htracked'⟩
  realloc := by
    intro c m p n r c' htracked hp hn h
    obtain ⟨q, hrealloc, rfl⟩ := trackedHeap_realloc h
    obtain ⟨hnull, _⟩ := htracked.1.realloc hS (Or.inr hp) hn hrealloc
    obtain ⟨s', _, hsystem, _⟩ := cstructuresRealloc_cases hrealloc
    obtain ⟨hfresh, _⟩ := hS.realloc (Or.inr (htracked.1.owned.within.mem hp)) hn hsystem
    have htracked' := htracked.step hS
      (show (MemoryCall.realloc p n).WellBehaved m from ⟨Or.inr hp, hn⟩) hrealloc
    rw [blocksAfterCall, if_neg hnull] at htracked'
    rw [if_neg hnull]
    exact ⟨_, rfl, (htracked.1.owned.within.erase.fresh hfresh).absent, htracked'⟩
  free := by
    intro c m p u c' htracked hp h
    exact htracked.step hS (show (MemoryCall.free p).WellBehaved m from hp)
      (Option.map_eq_some_iff.mpr ⟨_, h, rfl⟩)

/-- One call of the tracked heap is one call of the tracker. -/
theorem trackedHeap_counts (S : System σ) (junk : σ → Bytes) (fuel : Nat) :
    (trackedHeap S junk fuel).Counts (fun c => Readable c.gReport) fun c => c.dDeallocations.toNat where
  malloc n := (cstructuresMalloc_deallocates S fuel n).thenPure _
  realloc p n := by
    intro c r c' hr h
    obtain ⟨q, hrealloc, _⟩ := trackedHeap_realloc h
    exact cstructuresRealloc_deallocates S fuel p n c q c' hr hrealloc
  free p := cstructuresFree_deallocates S fuel p

variable {ls : List (ClientCall × ClientAnswer)} {client : Client}

/-- Over the C library every container of a client acts on its own, and the live blocks are at
any time the headers and buffers that the client owns, and the strings that it has lost. -/
theorem shared_heap_refines (hS : S.Conforms live) (junk : σ → Bytes) {s₀ s : σ} (hempty : live s₀ = ∅)
    (hrun : Run (ClientStep fun _ => plainHeap S junk) (⟨[], []⟩, s₀) ls (client, s)) :
    (∃ a, Run AbstractStep [] ls a ∧ client.Represents a) ∧ (live s).entries = client.footprint := by
  obtain ⟨a, habstract, hrep, ⟨m, hlive, hentries⟩, _⟩ := ClientStep.run
    (fun _ => plainHeap_keeps hS junk) (Client.represents_nil []) (Client.ownsHeap_nil hempty) hrun
  exact ⟨⟨a, habstract, hrep⟩, hlive ▸ hentries⟩

/-- Nothing is left of a client that has destroyed its containers but its lost strings. -/
lemma Client.card_footprint_of_destroyed (hdestroyed : ∀ x ∈ client.handles, x = none) :
    client.footprint.card = client.lost.length := by
  have hhandles : (client.handles.map handleFootprint).sum = 0 := by
    refine List.sum_eq_zero fun F hF => ?_
    obtain ⟨x, hx, rfl⟩ := List.mem_map.mp hF
    rw [hdestroyed x hx]
    rfl
  rw [Client.footprint, hhandles, zero_add]
  induction client.lost with
  | nil => rfl
  | cons p lost ih =>
    rw [List.map_cons, List.sum_cons, Multiset.card_add, ih, Multiset.card_singleton, List.length_cons,
      Nat.add_comm]

/-- Over the tracking functions, too. All calls of the containers on the tracker are well
behaved, its report has the blocks of the client and no others, and once the client has destroyed
its containers, `memory_deinit` counts one leak for every string that it has created, unless the
client has made so many calls that the call counters may have wrapped. -/
theorem tracker_accounts_for_clients (hS : S.Conforms live) (junk : σ → Bytes) {fuel : Nat}
    {c c₀ c₁ : Memory σ} (hinit : memoryInit S fuel c = some (0, c₀))
    (hrun : Run (ClientStep (trackedHeap S junk)) (⟨[], []⟩, c₀) ls (client, c₁)) :
    (∃ a, Run AbstractStep [] ls a ∧ client.Represents a) ∧
    (∃ calls m, Run (MemoryStep S) (c₀, ∅) calls (c₁, m) ∧ m.entries = client.footprint) ∧
    (∀ key info, Binds c₁.gReport.table c₁.gReport.values key info ↔
      ∃ b ∈ client.footprint, key = pointerBytes b.1 ∧ info = ReportInfo.bytes ⟨b.1, b.2⟩) ∧
    (memoryGetNumAllocs c₁).toNat = client.footprint.card ∧
    (memoryGetMemoryUsage c₁).toNat = (client.footprint.map fun b => b.2.toNat).sum ∧
    (ls.length < 2 ^ 62 → ∀ fuel, ∃ leaks c₂, memoryDeinit S fuel c₁ = some (leaks, c₂) ∧
      leaks.toNat = client.footprint.card) ∧
    ((∀ x ∈ client.handles, x = none) →
      client.footprint.card = (ls.map fun l => l.1.strings).sum) := by
  obtain ⟨hbalanced₀, _, hnone⟩ := Balanced.init hS hinit
  have hstart : Tracked S live c₀ c₀ ∅ := ⟨hbalanced₀, [], .nil _⟩
  obtain ⟨a, habstract, hrep, ⟨m, ⟨hbalanced, calls, hcalls⟩, hentries⟩, hlost⟩ := ClientStep.run
    (trackedHeap_keeps hS junk c₀) (Client.represents_nil []) (Client.ownsHeap_nil hstart) hrun
  have hfew : c₁.dDeallocations.toNat ≤ c₀.dDeallocations.toNat + 2 * ls.length :=
    ClientStep.run_spends (trackedHeap_keeps hS junk c₀) (trackedHeap_counts S junk)
      (Client.represents_nil []) (Client.ownsHeap_nil hstart) hbalanced₀.readable hrun
  have hcard : client.footprint.card = m.keys.card := by rw [← hentries, card_entries]
  refine ⟨⟨a, habstract, hrep⟩, ⟨calls, m, hcalls, hentries⟩, fun key info => ?_, ?_, ?_, fun hshort => ?_,
    fun hdestroyed => ?_⟩
  · rw [hbalanced.report.binds_iff, ← hentries]
    constructor
    · rintro ⟨p, n, hn, hkey, hinfo⟩
      exact ⟨⟨p, n⟩, Finmap.lookup_eq_some_iff.mp hn, hkey, hinfo⟩
    · rintro ⟨⟨p, n⟩, hmem, hkey, hinfo⟩
      exact ⟨p, n, Finmap.lookup_eq_some_iff.mpr hmem, hkey, hinfo⟩
  · rw [memoryGetNumAllocs, UInt32.toNat_toUInt64, hcard]
    exact hbalanced.report.card_keys
  · rw [← hentries, ← totalSize_eq_sum]
    exact hbalanced.usage
  · have hlt := hbalanced.card_lt
    rw [hnone, UInt64.toNat_zero, Nat.zero_add] at hfew
    rw [hcard]
    exact hbalanced.deinit hS (by omega)
  · rw [Client.card_footprint_of_destroyed hdestroyed, hlost]
    exact Nat.zero_add _

end Heaps

def clientExec {σ : Type} (H : HeapApi σ) (fuel : Nat) (c : Client × σ) (call : ClientCall) :
    Option (ClientAnswer × Client × σ) :=
  if call.Fits c.1 then
    (clientCall H fuel c.1 call c.2).bind fun r =>
      if r.1.2.InBounds then some (r.1.1, r.1.2, r.2) else none
  else none

lemma clientExec_step {σ : Type} {H : Nat → HeapApi σ} {fuel : Nat} {c c' : Client × σ} {call : ClientCall}
    {answer : ClientAnswer} (h : clientExec (H fuel) fuel c call = some (answer, c')) :
    ClientStep H c (call, answer) c' := by
  obtain ⟨hfits, h⟩ := Option.ite_none_right_eq_some.mp h
  obtain ⟨⟨⟨answer', client⟩, s⟩, hcall, h⟩ := Option.bind_eq_some_iff.mp h
  obtain ⟨hbounds, h⟩ := Option.ite_none_right_eq_some.mp h
  obtain ⟨rfl, rfl⟩ := Prod.mk.inj (Option.some.inj h)
  exact ⟨hfits, ⟨fuel, hcall⟩, hbounds⟩

/-- Three containers grow in turn. The hashmap frees its first table, which a string is then
granted, and all of them are destroyed. -/
def interleavedCalls : List ClientCall :=
  [.create (.vector 2), .init (.btree 2), .create (.hashmap 1 1 4 fun _ => 0), .vector 0 (.push [1, 2]),
    .btree 1 (.insertNew 7 [7, 0]), .hashmap 2 (.insert [1] (some [10])), .vector 0 (.push [3, 4]),
    .hashmap 2 (.insert [2] (some [20])), .hashmap 2 (.insert [3] (some [30])),
    .hashmap 2 (.insert [4] (some [40])), .stringCreate, .pushVector 0 0, .btree 1 (.insertNew 3 [3, 0]),
    .hashmap 2 (.find [2]), .btree 1 (.find 7), .vector 0 .pop, .destroy 2, .destroy 0, .destroy 1]

/-- What a run has answered, and whether all containers have been destroyed. -/
def outcome {σ : Type} (r : List (ClientCall × ClientAnswer) × Client × σ) : List ClientAnswer × Bool :=
  (r.1.map Prod.snd, r.2.1.handles.all Option.isNone)

def interleavedAnswers : List ClientAnswer :=
  [.done, .done, .done, .vector (.status 0), .btree (.status .ok), .hashmap (.status .hmOk),
    .vector (.status 0), .hashmap (.status .hmOk), .hashmap (.status .hmOk), .hashmap (.status .hmOk),
    .null, .vector (.status 0), .btree (.status .ok), .hashmap (.value (some [20])),
    .btree (.value (some [7, 0])), .vector (.element (some [3, 4])), .done, .done, .done]

lemma interleaved_plain : ∃ ls c,
    Run (ClientStep fun _ => plainHeap stackSystem fun _ _ => 0xAA) (⟨[], []⟩, (4096, ∅)) ls c ∧
      outcome (ls, c) = (interleavedAnswers, true) := by
  have hcalls : (runCalls (clientExec (plainHeap stackSystem fun _ _ => 0xAA) 9) (⟨[], []⟩, (4096, ∅))
      interleavedCalls).map outcome = some (interleavedAnswers, true) := by decide +kernel
  exact Run.exists_of_runCalls (fun _ _ _ _ h =>
    clientExec_step (H := fun _ => plainHeap stackSystem fun _ _ => 0xAA) h) hcalls

theorem shared_heap_refines_interleaved : ∃ ls client, ∃ s : UInt64 × BlockMap, ∃ a,
    outcome (ls, client, s) = (interleavedAnswers, true) ∧
    Run AbstractStep [] ls a ∧ client.Represents a ∧ s.2.entries = client.footprint := by
  obtain ⟨ls, ⟨client, s⟩, hrun, hanswers⟩ := interleaved_plain
  obtain ⟨⟨a, habstract, hrep⟩, hentries⟩ := shared_heap_refines stackSystem_conforms _ rfl hrun
  exact ⟨ls, client, s, a, hanswers, habstract, hrep, hentries⟩

lemma interleaved_tracked {c₀ : Memory (UInt64 × BlockMap)} (hinit : memoryInit stackSystem 9 freshMemory = some (0, c₀)) :
    ∃ ls c, Run (ClientStep (trackedHeap stackSystem fun _ _ => 0xAA)) (⟨[], []⟩, c₀) ls c ∧
      outcome (ls, c) = (interleavedAnswers, true) := by
  have hcalls : (memoryInit stackSystem 9 freshMemory).bind
      (fun r => (runCalls (clientExec (trackedHeap stackSystem (fun _ _ => 0xAA) 9) 9) (⟨[], []⟩, r.2)
        interleavedCalls).map outcome) = some (interleavedAnswers, true) := by decide +kernel
  rw [hinit] at hcalls
  exact Run.exists_of_runCalls (fun _ _ _ _ h => clientExec_step h) hcalls

theorem tracker_accounts_for_clients_interleaved : ∃ c₀ ls client c₁,
    memoryInit stackSystem 9 freshMemory = some (0, c₀) ∧
    outcome (ls, client, c₁) = (interleavedAnswers, true) ∧
    (∃ calls m, Run (MemoryStep stackSystem) (c₀, ∅) calls (c₁, m) ∧ m.entries = client.footprint) ∧
    ∃ leaks c₂, memoryDeinit stackSystem 0 c₁ = some (leaks, c₂) ∧
      leaks.toNat = (ls.map fun l => l.1.strings).sum := by
  obtain ⟨c₀, hinit⟩ : ∃ c₀, memoryInit stackSystem 9 freshMemory = some (0, c₀) := ⟨_, rfl⟩
  obtain ⟨ls, ⟨client, c₁⟩, hrun, houtcome⟩ := interleaved_tracked hinit
  obtain ⟨_, hcalls, _, _, _, hleaks, hstrings⟩ :=
    tracker_accounts_for_clients stackSystem_conforms _ hinit hrun
  have hdestroyed : ∀ x ∈ client.handles, x = none := fun x hx =>
    Option.isNone_iff_eq_none.mp (List.all_eq_true.mp (Prod.mk.inj houtcome).2 x hx)
  have hlength : ls.length = 19 := by
    rw [← List.length_map Prod.snd, (Prod.mk.inj houtcome).1]
    rfl
  rw [hstrings hdestroyed] at hleaks
  exact ⟨c₀, ls, client, c₁, hinit, houtcome, hcalls, hleaks (by omega) 0⟩

end CStructures
