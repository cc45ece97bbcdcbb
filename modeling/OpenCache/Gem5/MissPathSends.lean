/-
**What the miss path sends, and what comes back.**

The port asks for the next entry of the two queues, and the register or the write that it gets is
sent, held back or squashed; a response serves a register, which is then freed or sent again.

Main definitions:

* `OpenCache.MissPath.Chosen` — what is sent next.

Main results:

* `OpenCache.MissPath.Safe.getNextQueueEntry` — what is chosen waits in its queue;
* `OpenCache.MissPath.Safe.sendMSHRQueuePacket` — what happens to a register that is sent;
* `OpenCache.MissPath.Safe.recvTimingResp` — what a response does to the queue of the registers;
* `OpenCache.MissPath.step_spec` — **an operation fails exactly in the cases of `Fails`, and keeps
  everything otherwise**.
-/

import OpenCache.Gem5.MissPathSteps

set_option relaxedAutoImplicit false
set_option autoImplicit false

namespace OpenCache

namespace MissPath

open QueueItem EntryQueue

variable {info : CmdInfo} {p : CacheParams}

/-! ### What is sent next -/

section Next

variable {s s' : MissPath} {g : ℕ → MissRegister.History} {i : ℕ}

/-- What is sent next: a write that waits, or a register that waits and has not been sent yet.  A
register may have been allocated for a prefetch. -/
structure Chosen (info : CmdInfo) (p : CacheParams) (s : MissPath) (g : ℕ → MissRegister.History)
    (next : Option Next) (s' : MissPath) (os : List MissRegister.Op) : Prop where
  nothing : next = none → s' = s
  write : ∀ i, next = some (.write i) → s' = s ∧ i ∈ s.writeBuffer.readyList
  miss : ∀ i, next = some (.miss i) →
    i ∈ s'.mshrQueue.readyList ∧ ∃ g', Used info p s g s' i os g' []

theorem Chosen.of_none : Chosen info p s g none s [] :=
  ⟨fun _ => rfl, fun i hi => (by cases hi), fun i hi => (by cases hi)⟩

theorem Chosen.of_write (hi : i ∈ s.writeBuffer.readyList) :
    Chosen info p s g (some (.write i)) s [] := by
  refine ⟨fun hnone => (by cases hnone), fun j hj => ?_, fun j hj => (by cases hj)⟩
  cases hj
  exact ⟨rfl, hi⟩

theorem Chosen.of_miss {os : List MissRegister.Op} {g' : MissRegister.History}
    (hi : i ∈ s'.mshrQueue.readyList) (h : Used info p s g s' i os g' []) :
    Chosen info p s g (some (.miss i)) s' os := by
  refine ⟨fun hnone => (by cases hnone), fun j hj => (by cases hj), fun j hj => ?_⟩
  cases hj
  exact ⟨hi, g', h⟩

theorem Safe.targets_ready (h : Safe info p s g) :
    ∀ i ∈ s.mshrQueue.readyList, hasTargets (s.mshrQueue.entries i) = true := fun i hi =>
  h.mshrs.targets i (h.mshrs.of_ready hi).1

theorem Safe.writes_ready (h : Safe info p s g) :
    ∀ i ∈ s.writeBuffer.readyList, hasTargets (s.writeBuffer.entries i) = true := fun i hi =>
  h.writes.consistent.targets i (h.writes.consistent.of_ready hi).1

theorem mem_of_getNext {ε : Type*} [QueueItem ε] {q : EntryQueue ε} {now : ℕ}
    (h : q.getNext now = some i) :
    i ∈ q.readyList := by
  obtain ⟨rest, hlist⟩ := (getNext_eq_some h).1
  rw [hlist]
  exact List.mem_cons_self

theorem Safe.nextWrite (h : Safe info p s g) {w : ℕ} (hw : w ∈ s.writeBuffer.readyList) :
    ∃ next, s.nextWrite w = some next ∧ Chosen info p s g (some next) s [] := by
  obtain ⟨found, hfound, hsome⟩ := h.mshrs.findPending_spec (h.writes_ready w hw)
  unfold MissPath.nextWrite
  rw [hfound, Option.map_some]
  cases found with
  | none => exact ⟨_, rfl, .of_write hw⟩
  | some c =>
      obtain ⟨hc, -⟩ := hsome c rfl
      rw [Option.elim_some]
      split
      · exact ⟨_, rfl, .of_miss hc (.refl h c)⟩
      · exact ⟨_, rfl, .of_write hw⟩

theorem Safe.nextMiss (h : Safe info p s g) (hi : i ∈ s.mshrQueue.readyList) :
    ∃ next, s.nextMiss i = some next ∧ Chosen info p s g (some next) s [] := by
  obtain ⟨found, hfound, hsome⟩ := h.writes.consistent.findPending_spec (h.targets_ready i hi)
  unfold MissPath.nextMiss
  rw [hfound, Option.map_some]
  cases found with
  | none => exact ⟨_, rfl, .of_miss hi (.refl h i)⟩
  | some w => exact ⟨_, rfl, .of_write (hsome w rfl).1⟩

/-- There is a register for a prefetch if the queue of the registers says so. -/
theorem isFull_of_canPrefetch {demandReserve : ℕ} {q : EntryQueue MSHR}
    (h : MSHRQueue.canPrefetch demandReserve q = true) : q.isFull = false := by
  rw [MSHRQueue.canPrefetch, decide_eq_true_eq] at h
  rw [isFull, decide_eq_false_iff_not]
  omega

theorem Safe.nextPrefetch (h : Safe info p s g) (now : ℕ) {pkt : Packet}
    (hfull : s.mshrQueue.isFull = false) (hsender : pkt.sender = none) : ∃ next s' os,
      s.nextPrefetch info p now pkt = some (next, s', os) ∧ Chosen info p s g next s' os := by
  obtain ⟨found, hfound, -, -⟩ :=
    h.mshrs.findMatch_spec (pkt.blockAddr p.blkSize) pkt.secure true
  obtain ⟨found', hfound', -, -⟩ :=
    h.writes.consistent.findMatch_spec (pkt.blockAddr p.blkSize) pkt.secure true
  unfold MissPath.nextPrefetch
  rw [hfound, Option.bind_some]
  cases found with
  | some i => exact ⟨none, s, [], rfl, .of_none⟩
  | none =>
      dsimp only
      rw [hfound', Option.bind_some]
      cases found' with
      | some w => exact ⟨none, s, [], rfl, .of_none⟩
      | none =>
          rcases h.allocateRegister now now hfull (Or.inr hfound) with
            ⟨hasks, -⟩ | ⟨-, i, s', g', hs', hi, -, -, hused⟩
          · rw [Packet.upper, if_pos rfl, hsender] at hasks
            cases hasks
          · refine ⟨some (.miss i), s', [missOp p now pkt now], ?_, .of_miss hi hused⟩
            dsimp only
            rw [hs', Option.map_some]

/-- There is always an answer to what is sent next. -/
theorem Safe.getNextQueueEntry (h : Safe info p s g) (now : ℕ) {prefetch : Option Packet}
    (hsender : prefetch.bind Packet.sender = none) :
    ∃ next s' os, s.getNextQueueEntry info p now prefetch = some (next, s', os) ∧
      Chosen info p s g next s' os := by
  unfold MissPath.getNextQueueEntry
  dsimp only
  split
  · next w _ hw =>
      rw [Option.filter_eq_some_iff] at hw
      obtain ⟨next, hnext, hchosen⟩ := h.nextWrite (mem_of_getNext hw.1)
      exact ⟨some next, s, [], by rw [hnext, Option.map_some], hchosen⟩
  · next i _ hi =>
      obtain ⟨next, hnext, hchosen⟩ := h.nextMiss (mem_of_getNext hi)
      exact ⟨some next, s, [], by rw [hnext, Option.map_some], hchosen⟩
  · split
    · next pkt hpkt =>
        rw [Option.filter_eq_some_iff, Bool.and_eq_true] at hpkt
        rw [hpkt.1, Option.bind_some] at hsender
        exact h.nextPrefetch now (isFull_of_canPrefetch hpkt.2.1) hsender
    · exact ⟨none, s, [], rfl, .of_none⟩

end Next

/-! ### What is sent -/

section Send

variable {s s' : MissPath} {g : ℕ → MissRegister.History} {i : ℕ}

/-- A register that waits has targets, and was not sent. -/
theorem Safe.idle (h : Safe info p s g) (hi : i ∈ s.mshrQueue.readyList) :
    i ∈ s.mshrQueue.allocatedList ∧ (s.mshrQueue.entries i).hasTargets = true ∧
      (s.mshrQueue.entries i).inService = false := by
  obtain ⟨hallocated, hidle⟩ := h.mshrs.of_ready hi
  exact ⟨hallocated, h.mshrs.targets i hallocated, hidle⟩

/-- The packet of a register is sent. -/
theorem Safe.accepted (h : Safe info p s g) (pendingModifiedResp isForward : Bool)
    (hi : i ∈ s.mshrQueue.readyList) : ∃ q above' g',
      (s.mshrQueue.update i { s.mshrQueue.entries i with isForward := isForward }).markInServiceWith
        (MSHR.markInService pendingModifiedResp s.above) i = some (q, above') ∧
      Used info p s g { s with
        mshrQueue := q
        above := above' } i [.send true pendingModifiedResp isForward] g' [] := by
  obtain ⟨hallocated, hhas, hidle⟩ := h.idle hi
  let m : MSHR := { s.mshrQueue.entries i with isForward := isForward }
  have hconsistent : (s.mshrQueue.update i m).Consistent := h.mshrs.update hallocated rfl hhas
  have hlinked : m.Linked s.above :=
    ⟨(h.registers.good i).linked.nodup, (h.registers.good i).linked.pending⟩
  obtain ⟨m', above', hm', hservice, hlook, hdeferred, -, -, -⟩ :=
    MSHR.markInService_spec info pendingModifiedResp hlinked hidle
  have hself : (s.mshrQueue.update i m).entries i = m := Function.update_self _ _ _
  let mark : MSHR → Option MSHR := fun _ => some m'
  have hmark : mark ((s.mshrQueue.update i m).entries i) = some m' := rfl
  obtain ⟨q, hq, hentries, hlist, -, -, hsize, hreserve, hcount, hq'⟩ :=
    hconsistent.send hi hmark hservice ((hasTargets_of_look hlook).trans hhas)
  have hentries' : q.entries = Function.update s.mshrQueue.entries i m' := by
    rw [hentries]
    exact Function.update_idem _ _ _
  let s' : MissPath := { s with
    mshrQueue := q
    above := above' }
  have hfull : s'.noMSHRs = q.isFull := by
    unfold EntryQueue.isFull
    rw [hcount, hsize, hreserve]
    exact h.noMSHRs
  let o : MissRegister.Op := .send true pendingModifiedResp isForward
  have hp : MissRegister.promise info (s.register i, g i) o := ⟨hhas, hidle⟩
  have hstep : MissRegister.step info (s.register i) o = some (⟨m', s.order, above'⟩, []) :=
    congrArg (Option.map _) hm'
  have hsingle : Single q := h.single.update hentries' (fun j hj => hlist ▸ hj)
    ((MSHR.block_markInService hm').trans rfl)
  have hboth : (m'.targets.list ++ m'.deferredTargets.list).map MSHR.look =
      (m.targets.list ++ m.deferredTargets.list).map MSHR.look := by
    rw [List.map_append, List.map_append, hlook, hdeferred]
  have hblocking : Blocking s' := h.blocking.use hentries' (fun j hj _ => hlist.symm ▸ hj) rfl
    fun _ _ hold => ⟨hlist.symm ▸ hallocated, hold.of_look hboth⟩
  obtain ⟨g', hused⟩ := h.use s' hp (fun _ => MissRegister.Op.noConfusion)
    hstep (le_refl _) hentries' hq'
    ⟨hsize, hreserve⟩ hfull ⟨rfl, rfl⟩ h.noTargets hsingle hblocking
  refine ⟨q, above', g', ?_, hused⟩
  unfold EntryQueue.markInServiceWith
  rw [hself, hm', Option.bind_some, hq]
  rfl

/-- A register becomes free, which is not the one for which the cache is blocked. -/
theorem Safe.freed (h : Safe info p s g) (hi : i ∈ s.mshrQueue.allocatedList) {m m' : MSHR}
    {above' : Above} {o : MissRegister.Op} {served : List Target}
    (hp : MissRegister.promise info (s.register i, g i) o) (hown : ∀ above, o ≠ .changeAbove above)
    (hstep : MissRegister.step info (s.register i) o = some (⟨m', s.order, above'⟩, served))
    (hservice : m.inService = (s.mshrQueue.entries i).inService) (hrelease : m.deallocate = some m')
    (hdeferred : m'.targets.list = [] → m'.deferredTargets.list = [])
    (hnot : i ∈ s.noTargetMSHR → ¬Demanded (s.mshrQueue.entries i)) : ∃ q,
      (s.mshrQueue.update i m).deallocate MSHR.deallocate i = some q ∧
      ∃ g', Used info p s g { s with
        mshrQueue := q
        noMSHRs := s.noMSHRs && !((s.mshrQueue.update i m).isFull && !q.isFull)
        above := above' } i [o] g' served := by
  have hnil : m'.targets.list = [] := by
    unfold MSHR.deallocate at hrelease
    rw [Option.ite_none_right_eq_some] at hrelease
    obtain ⟨⟨hempty, -⟩, heq⟩ := hrelease
    obtain rfl := Option.some.inj heq
    exact List.isEmpty_iff.1 hempty
  have hnone : numTargets m' = 0 := by
    change m'.targets.list.length + m'.deferredTargets.list.length = 0
    rw [hnil, hdeferred hnil]
    rfl
  let release : MSHR → Option MSHR := fun _ => m.deallocate
  have hrelease' : release (s.mshrQueue.entries i) = some m' := hrelease
  obtain ⟨q, hq, hentries, hlist, -, -, hsize, hreserve, hcount, hconsistent⟩ :=
    h.mshrs.deallocate hi hrelease' hnone
  let s' : MissPath := { s with
    mshrQueue := q
    noMSHRs := s.noMSHRs && !((s.mshrQueue.update i m).isFull && !q.isFull)
    above := above' }
  have hfull : s'.noMSHRs = s'.mshrQueue.isFull := by
    change (s.noMSHRs && !(s.mshrQueue.isFull && !q.isFull)) = q.isFull
    rw [h.noMSHRs]
    exact isFull_of_pred hcount hsize hreserve
  have hblocking : Blocking s' := by
    refine h.blocking.use hentries (fun j hj hji => ?_) rfl fun hmem _ hold =>
      absurd hold (hnot hmem)
    change j ∈ q.allocatedList
    rw [hlist]
    exact h.mshrs.nodup_allocated.mem_erase_iff.2 ⟨hji, hj⟩
  refine ⟨q, ?_, h.use s' hp hown hstep (le_refl _) hentries hconsistent
    ⟨hsize, hreserve⟩ hfull ⟨rfl, rfl⟩
    h.noTargets (h.single.free hentries h.mshrs.nodup_allocated hlist) hblocking⟩
  have hsame : (QueueItem.entry m).inService = (s.mshrQueue.item i).inService := hservice
  rw [deallocate_update hsame]
  exact hq

/-- What the promotion of deferred targets leaves. -/
theorem hasTargets_of_promote {m : MSHR} {now : ℕ}
    (h : (m.promoteDeferredTargets info now).1 = true) :
    (m.promoteDeferredTargets info now).2.hasTargets = true := by
  have hne : ¬(m.targets.list = [] ∧ m.deferredTargets.list = []) := by
    rintro ⟨hnil, hnil'⟩
    unfold MSHR.promoteDeferredTargets at h
    rw [hnil, hnil'] at h
    cases h
  obtain ⟨-, moved, -, -, htargets, -⟩ := MSHR.promoteDeferredTargets_spec info now hne
  rw [MSHR.hasTargets, List.isEmpty_eq_false_iff.2 htargets, Bool.not_false]

theorem promote_eq_self {m : MSHR} {now : ℕ} (h : ¬(m.promoteDeferredTargets info now).1 = true) :
    (m.promoteDeferredTargets info now).2 = m := by
  unfold MSHR.promoteDeferredTargets at h ⊢
  split at h
  · next hnil => rw [if_pos hnil]
  · exact absurd rfl h

/-- The first target of a register is dropped: what is left waits, or the register is free. -/
theorem Safe.squashed (h : Safe info p s g) (now : ℕ) (hi : i ∈ s.mshrQueue.readyList)
    (hprefetch : ∀ t ∈ (s.mshrQueue.entries i).targets.list.head?, t.pkt.cmd = .hardPFReq) : ∃ r g',
      MSHRQueue.forceDeallocateTarget info now i s.mshrQueue = some r ∧ Used info p s g { s with
        mshrQueue := r.2
        noMSHRs := s.noMSHRs && !r.1 } i [.squash now] g' [] := by
  obtain ⟨hallocated, hhas, hidle⟩ := h.idle hi
  have hne : (s.mshrQueue.entries i).targets.list ≠ [] :=
    MissRegister.targets_ne_nil (s := s.register i) hhas
  have hshaped : MSHR.Shaped (g i).held (g i).outstanding (s.mshrQueue.entries i) :=
    (h.registers.good i).shaped
  obtain ⟨m', hm', hsquashed⟩ := MSHR.squash_spec info now hshaped hne hidle
  have hp : MissRegister.promise info (s.register i, g i) (.squash now) := ⟨hhas, hidle⟩
  have hstep : MissRegister.step info ⟨s.mshrQueue.entries i, s.order, s.above⟩ (.squash now) =
      some (⟨m', s.order, s.above⟩, []) := by
    rw [MissRegister.step, hm', Option.map_some]
  let pop := (s.mshrQueue.entries i).popTarget
  let r := pop.promoteDeferredTargets info now
  have hplace : r.2.place = (s.mshrQueue.entries i).place := MSHR.place_promoteDeferredTargets now
  -- what is not a prefetch is still there
  have hdemanded : Demanded (s.mshrQueue.entries i) → Demanded pop := by
    rintro ⟨t, ht, hcmd⟩
    refine ⟨t, ?_, hcmd⟩
    rcases List.mem_append.1 ht with ht | ht
    · refine List.mem_append_left _ ?_
      obtain ⟨front, rest, hlist⟩ := List.exists_cons_of_ne_nil (List.ne_nil_of_mem ht)
      change t ∈ (s.mshrQueue.entries i).targets.list.tail
      rw [hlist] at ht hprefetch ⊢
      rcases List.mem_cons.1 ht with rfl | ht
      · exact absurd (hprefetch t rfl) hcmd
      · exact ht
    · exact List.mem_append_right _ ht
  -- the register keeps its entry
  have hupdate : ∀ m : MSHR, m' = m → m.place = (s.mshrQueue.entries i).place →
      m.hasTargets = true → (Demanded pop → Demanded m) →
      ∃ g', Used info p s g { s with
        mshrQueue := s.mshrQueue.update i m
        noMSHRs := s.noMSHRs && !(s.mshrQueue.isFull && !(s.mshrQueue.update i m).isFull) } i
        [.squash now] g' [] := by
    rintro m rfl hsame htargets hkept
    obtain ⟨g', hused⟩ := h.use_update hallocated hp (fun _ => MissRegister.Op.noConfusion) hstep
      (le_refl _) hsame htargets fun _ hold => hkept (hdemanded hold)
    have hfull : (s.noMSHRs && !(s.mshrQueue.isFull && !(s.mshrQueue.update i m').isFull)) =
        s.noMSHRs := by
      have hsame' : (s.mshrQueue.update i m').isFull = s.mshrQueue.isFull := rfl
      rw [hsame', Bool.and_not_self, Bool.not_false, Bool.and_true]
    exact ⟨g', hfull.symm ▸ hused⟩
  unfold MSHRQueue.forceDeallocateTarget
  unfold MSHR.squash at hm'
  rw [if_neg (by simp [hhas])] at hm'
  dsimp only at hm' ⊢
  rw [if_neg (by simp [hhas])]
  by_cases hleft : pop.hasTargets = true
  · rw [if_pos hleft] at hm' ⊢
    obtain ⟨g', hused⟩ := hupdate pop (Option.some.inj hm').symm rfl hleft id
    exact ⟨_, g', rfl, hused⟩
  · rw [if_neg hleft] at hm' ⊢
    by_cases hpromote : r.1 = true
    · rw [if_pos hpromote] at hm' ⊢
      have hkept : Demanded pop → Demanded r.2 := by
        rintro ⟨t, ht, hcmd⟩
        exact ⟨t, (lists_promoteDeferredTargets info now pop).symm ▸ ht, hcmd⟩
      obtain ⟨g', hused⟩ :=
        hupdate r.2 (Option.some.inj hm').symm hplace (hasTargets_of_promote hpromote) hkept
      exact ⟨_, g', rfl, hused⟩
    · -- nothing is left
      rw [if_neg hpromote] at hm' ⊢
      have hself : r.2 = pop := promote_eq_self hpromote
      have hnone : ¬Demanded pop := by
        rintro ⟨t, ht, -⟩
        unfold r MSHR.promoteDeferredTargets at hpromote
        rw [List.append_eq_nil_iff.2 ?_] at ht
        · cases ht
        · by_contra hne
          rw [if_neg (by rwa [Bool.and_eq_true, List.isEmpty_iff, List.isEmpty_iff])] at hpromote
          exact hpromote rfl
      obtain ⟨q, hq, g', hused⟩ := h.freed hallocated hp (fun _ => MissRegister.Op.noConfusion)
        hstep (congrArg Prod.snd hplace) (m := r.2) (hself.symm ▸ hm')
        (fun hnil => (hsquashed.shaped.free hnil).1) fun _ hold => hnone (hdemanded hold)
      rw [hq]
      exact ⟨_, g', rfl, hused⟩

/-- A register that waits is sent, held back or squashed, unless it cannot be sent. -/
theorem Safe.sendMSHRQueuePacket (h : Safe info p s g) (now : ℕ) (reply : Reply)
    (hi : i ∈ s.mshrQueue.readyList) (hprefetch : reply = .squashed →
      ∀ t ∈ (s.mshrQueue.entries i).targets.list.head?, t.pkt.cmd = .hardPFReq) :
    (Unsendable info now (s.mshrQueue.entries i) reply ∧
        s.sendMSHRQueuePacket info now i reply = none) ∨
      ¬Unsendable info now (s.mshrQueue.entries i) reply ∧ ∃ s' os g',
        s.sendMSHRQueuePacket info now i reply = some (s', os) ∧ Used info p s g s' i os g' [] := by
  obtain ⟨hallocated, hhas, hidle⟩ := h.idle hi
  have hne : (s.mshrQueue.entries i).targets.list ≠ [] :=
    MissRegister.targets_ne_nil (s := s.register i) hhas
  obtain ⟨front, rest, htargets⟩ := List.exists_cons_of_ne_nil hne
  have hfront : (s.mshrQueue.entries i).targets.list.head? = some front := by
    rw [htargets, List.head?_cons]
  unfold MissPath.sendMSHRQueuePacket
  dsimp only
  rw [hfront, Option.bind_some]
  cases reply with
  | conflict => exact Or.inr ⟨id, s, [], g i, rfl, .refl h i⟩
  | retry isForward =>
      have hfails : Unsendable info now (s.mshrQueue.entries i) (.retry isForward) ↔
          (isForward && info.isWrite front.pkt.cmd) = true := by
        simp [Unsendable, hfront]
      rw [hfails]
      dsimp only
      cases hwrite : isForward && info.isWrite front.pkt.cmd with
      | true => exact Or.inl ⟨rfl, rfl⟩
      | false =>
          obtain ⟨g', hused⟩ := h.use_update (g := g) (o := .send false false isForward)
            (m := { s.mshrQueue.entries i with isForward := isForward }) hallocated ⟨hhas, hidle⟩
            (fun _ => MissRegister.Op.noConfusion) rfl (le_refl _) rfl hhas fun _ hold => hold
          exact Or.inr ⟨Bool.false_ne_true, _, _, g', rfl, hused⟩
  | accepted pendingModifiedResp isForward =>
      have hfails : Unsendable info now (s.mshrQueue.entries i)
          (.accepted pendingModifiedResp isForward) ↔
          (isForward && info.isWrite front.pkt.cmd) = true := by
        simp [Unsendable, hfront]
      rw [hfails]
      dsimp only
      cases hwrite : isForward && info.isWrite front.pkt.cmd with
      | true => exact Or.inl ⟨rfl, rfl⟩
      | false =>
          obtain ⟨q, above', g', hq, hused⟩ := h.accepted pendingModifiedResp isForward hi
          refine Or.inr ⟨Bool.false_ne_true, _, _, g', ?_, hused⟩
          rw [if_neg Bool.false_ne_true, hq, Option.map_some]
  | snooped pendingModifiedResp =>
      -- as if the packet was accepted
      have hsame : s.mshrQueue.update i { s.mshrQueue.entries i with
          isForward := (s.mshrQueue.entries i).isForward } = s.mshrQueue := by
        unfold EntryQueue.update
        rw [Function.update_eq_self]
      obtain ⟨q, above', g', hq, hused⟩ :=
        h.accepted pendingModifiedResp (s.mshrQueue.entries i).isForward hi
      rw [hsame] at hq
      refine Or.inr ⟨id, _, _, g', ?_, hused⟩
      dsimp only
      rw [hq, Option.map_some]
  | delayed delayTicks =>
      dsimp only
      rw [delay_eq _ hi]
      by_cases hready : (s.mshrQueue.entries i).readyTime ≤ now
      · refine Or.inr ⟨Nat.not_lt.2 hready, ?_⟩
        let m : MSHR := { s.mshrQueue.entries i with readyTime := now + delayTicks }
        have hm : MSHR.delay now delayTicks (s.mshrQueue.entries i) = some m := if_pos hready
        have hstep : MissRegister.step info ⟨s.mshrQueue.entries i, s.order, s.above⟩
            (.delay now delayTicks) = some (⟨m, s.order, s.above⟩, []) := by
          rw [MissRegister.step, hm, Option.map_some]
        obtain ⟨g', hused⟩ := h.use_update (g := g) (o := .delay now delayTicks)
          (m := m) hallocated hready
          (fun _ => MissRegister.Op.noConfusion) hstep (le_refl _) rfl hhas fun _ hold => hold
        rw [hm]
        exact ⟨_, _, g', rfl, hused⟩
      · refine Or.inl ⟨Nat.not_le.1 hready, ?_⟩
        rw [MSHR.delay, if_neg hready]
        rfl
  | squashed =>
      obtain ⟨r, g', hr, hused⟩ := h.squashed now hi (hprefetch rfl)
      refine Or.inr ⟨id, _, _, g', ?_, hused⟩
      dsimp only
      rw [hr, Option.map_some]

/-- A write that waits is sent, or waits on. -/
theorem Safe.sendWriteQueuePacket (h : Safe info p s g) (reply : Reply)
    (hi : i ∈ s.writeBuffer.readyList)
    {leaves : ℕ → Prop} (hleaves : (∃ b b', reply = .accepted b b') → leaves i) :
    ∃ s', s.sendWriteQueuePacket i reply = some s' ∧ Found info p s s' g leaves := by
  obtain ⟨t, htargets, -, -⟩ := h.writes.single i (h.writes.mem_ready.1 hi)
  unfold MissPath.sendWriteQueuePacket
  rw [htargets, List.head?_cons, Option.bind_some]
  split
  · next b b' => exact h.found (h.writes.mem_ready.1 hi) (hleaves ⟨b, b', rfl⟩)
  · exact ⟨s, rfl, .refl h⟩

/-- The port sends something, unless it is a register that cannot be sent. -/
theorem Safe.sendDeferredPacket (h : Safe info p s g) (now : ℕ) {prefetch : Option Packet}
    (reply : Reply) (hp : s.onPrefetch info p now prefetch reply = true)
    (hsender : prefetch.bind Packet.sender = none) :
    (Fails info p s (.send now prefetch reply) ∧
      s.sendDeferredPacket info p now prefetch reply = none) ∨
      ¬Fails info p s (.send now prefetch reply) ∧ ∃ s' event,
        s.sendDeferredPacket info p now prefetch reply = some (s', event) ∧
        Kept info p s g s' event True fun w => Leaves info p s w (.send now prefetch reply) := by
  obtain ⟨next, s₁, os, hnext, hchosen⟩ := h.getNextQueueEntry now hsender
  have hfails : Fails info p s (.send now prefetch reply) ↔
      ∃ i, next = some (.miss i) ∧ Unsendable info now (s₁.mshrQueue.entries i) reply := by
    unfold Fails
    dsimp only
    rw [hnext]
    constructor
    · rintro ⟨i, s', ops, heq, hlate⟩
      cases heq
      exact ⟨i, rfl, hlate⟩
    · rintro ⟨i, rfl, hlate⟩
      exact ⟨i, s₁, os, rfl, hlate⟩
  unfold MissPath.sendDeferredPacket
  rw [hfails, hnext, Option.bind_some]
  cases next with
  | none =>
      refine Or.inr ⟨?_, s₁, MissPath.nothing, rfl, ?_⟩
      · rintro ⟨_, hnone, -⟩
        cases hnone
      · rw [hchosen.nothing rfl]
        exact (Found.refl h).kept h True
  | some entry =>
      cases entry with
      | write w =>
          obtain ⟨rfl, hw⟩ := hchosen.write w rfl
          let leaves : ℕ → Prop := fun w => Leaves info p s₁ w (.send now prefetch reply)
          have hleaves : (∃ b b', reply = .accepted b b') → leaves w := by
            rintro ⟨b, b', rfl⟩
            exact ⟨_, _, hnext⟩
          obtain ⟨s', hs', hfound⟩ := h.sendWriteQueuePacket reply hw hleaves
          refine Or.inr ⟨?_, s', MissPath.nothing, ?_, hfound.kept h True⟩
          · rintro ⟨_, hmiss, -⟩
            cases hmiss
          · dsimp only
            rw [hs', Option.map_some]
      | miss i =>
          obtain ⟨hi, g₁, hused⟩ := hchosen.miss i rfl
          have hprefetch : reply = .squashed →
              ∀ t ∈ (s₁.mshrQueue.entries i).targets.list.head?, t.pkt.cmd = .hardPFReq := by
            rintro rfl t ht
            unfold onPrefetch at hp
            rw [hnext] at hp
            simpa using Option.all_eq_true _ _ |>.1 hp t ht
          rcases hused.safe.sendMSHRQueuePacket now reply hi hprefetch with
            ⟨hlate, hnone⟩ | ⟨hready, s', os', g', hs', hused'⟩
          · refine Or.inl ⟨⟨i, rfl, hlate⟩, ?_⟩
            dsimp only
            rw [hnone, Option.map_none]
          · refine Or.inr ⟨?_, s', ⟨some (i, os ++ os'), []⟩, ?_, (hused.trans hused').kept True _⟩
            · rintro ⟨j, hj, hlate⟩
              cases hj
              exact hready hlate
            · dsimp only
              rw [hs', Option.map_some]

end Send

/-! ### What comes back -/

section Respond

variable {s s' : MissPath} {g : ℕ → MissRegister.History} {i : ℕ}

/-- A register that serves the last of its targets is freed; otherwise it stays in service, or
is sent again. -/
theorem Safe.respond (h : Safe info p s g) (now : ℕ) {resp : Packet} {blk : BlockInfo}
    (hi : i ∈ s.mshrQueue.allocatedList) (hnot : s.noTargetMSHR ≠ some i)
    (hp : MissRegister.promise info (s.register i, g i) (.respond now resp blk)) :
    (Fails info p s (.respond now i resp blk) ∧ s.recvTimingResp info now i resp blk = none) ∨
      ¬Fails info p s (.respond now i resp blk) ∧ ∃ s' event,
        s.recvTimingResp info now i resp blk = some (s', event) ∧
        ∀ leaves, Kept info p s g s' event True leaves := by
  have hshaped : MSHR.Shaped (g i).held (g i).outstanding (s.mshrQueue.entries i) :=
    (h.registers.good i).shaped
  have hlinked : (s.mshrQueue.entries i).Linked s.above := (h.registers.good i).linked
  have hpending : (s.mshrQueue.entries i).downstreamPending = false := hp.1
  have hresp := hp.2.1
  have hresp' : (g i).outstanding = true ∧ resp.cmd ≠ .lockedRMWWriteResp ∨
      (g i).held = true ∧ resp.cmd = .lockedRMWWriteResp := hresp.imp id fun h => ⟨h.1, h.2.1⟩
  have hservice : (s.mshrQueue.entries i).inService = true := by
    rcases hresp' with ⟨hsent, -⟩ | ⟨hheld, -⟩
    · exact (hshaped.of_outstanding hsent).1
    · exact (hshaped.of_held hheld).1
  unfold MissPath.recvTimingResp Fails
  rw [if_neg hnot]
  dsimp only
  by_cases hwhole : ((s.mshrQueue.entries i).wasWholeLineWrite &&
    !info.isInvalidate resp.cmd) = true
  · refine Or.inl ⟨Or.inl ?_, if_pos hwhole⟩
    rwa [Bool.and_eq_true, Bool.not_eq_true'] at hwhole
  have hwhole' : ¬((s.mshrQueue.entries i).wasWholeLineWrite = true ∧
      info.isInvalidate resp.cmd = false) := by
    rwa [Bool.and_eq_true, Bool.not_eq_true'] at hwhole
  rw [if_neg hwhole, or_iff_right hwhole']
  rcases MSHR.receiveResp_spec info now blk hshaped hlinked hpending hresp' with
    ⟨hclash, -⟩ | ⟨hclash, ready, m', above', hreceive, hresponse, -⟩
  · refine Or.inl ⟨hclash, ?_⟩
    rcases MSHR.promote_spec info resp blk hlinked hservice hpending hshaped.deferred with
      ⟨-, hnone⟩ | ⟨hok, -⟩
    · rw [hnone, Option.bind_none]
    · exact absurd hclash hok
  · refine Or.inr ⟨hclash, ?_⟩
    have hown : ∀ above, MissRegister.Op.respond now resp blk ≠ .changeAbove above :=
      fun _ => MissRegister.Op.noConfusion
    have hstep : MissRegister.step info ⟨s.mshrQueue.entries i, s.order, s.above⟩
        (.respond now resp blk) = some (⟨m', s.order, above'⟩, ready) := by
      rw [MissRegister.step, hreceive, Option.map_some]
    obtain ⟨m₁, m₂, m₃, hm₁, hpop, hserve, hfinish⟩ := MSHR.receiveResp_eq_some hreceive
    have hplace : m₃.place = (s.mshrQueue.entries i).place :=
      (MSHR.place_service hserve).trans ((MSHR.place_popLocked hpop).trans (MSHR.place_promote hm₁))
    rw [hm₁, Option.bind_some, hpop, Option.bind_some, hserve, Option.bind_some]
    dsimp only
    unfold MSHR.finish at hfinish
    by_cases hlocked : m₃.hasLockedRMWReadTarget = true
    · rw [if_pos hlocked] at hfinish ⊢
      obtain rfl := Option.some.inj hfinish
      obtain ⟨b, post, hlist, -⟩ := MSHR.hasLocked_iff.1 hlocked
      have hhas : m₃.hasTargets = true := by
        rw [MSHR.hasTargets, hlist]
        rfl
      obtain ⟨g', hused⟩ := h.use_update hi hp hown hstep (le_refl _) hplace hhas
        fun hmem => absurd hmem hnot
      exact ⟨_, _, rfl, hused.kept True⟩
    · rw [if_neg hlocked] at hfinish ⊢
      by_cases hpromote : (m₃.promoteDeferredTargets info now).1 = true
      · -- what was deferred is sent
        rw [if_pos hpromote] at hfinish ⊢
        let m₅ := (m₃.promoteDeferredTargets info now).2
        have hplace₅ : m₅.place = (s.mshrQueue.entries i).place :=
          (MSHR.place_promoteDeferredTargets now).trans hplace
        have hsent₅ : m₅.inService = (s.mshrQueue.entries i).inService := congrArg Prod.snd hplace₅
        have hhas : m₅.hasTargets = true := hasTargets_of_promote hpromote
        have hself : (s.mshrQueue.update i m₅).entries i = m₅ := Function.update_self _ _ _
        let clear : MSHR → MSHR := fun m => { m with inService := false }
        have hclear : clear ((s.mshrQueue.update i m₅).entries i) = m' := by
          rw [hself]
          exact Option.some.inj hfinish
        have hpending : (QueueItem.entry (clear ((s.mshrQueue.update i m₅).entries i))).inService =
            false :=
          rfl
        obtain ⟨q, hq, hentries, hlist, -, -, hsize, hreserve, hcount, hconsistent⟩ :=
          (h.mshrs.update hi hsent₅ hhas).pend hi
            (by rw [item, hself]; exact hsent₅.trans hservice) hpending (by rw [hself]; exact hhas)
        have hentries' : q.entries = Function.update s.mshrQueue.entries i m' := by
          rw [hentries, hclear]
          exact Function.update_idem _ _ _
        let s' : MissPath := { s with
          mshrQueue := q
          above := above' }
        have hfull : s'.noMSHRs = q.isFull := by
          unfold EntryQueue.isFull
          rw [hcount, hsize, hreserve]
          exact h.noMSHRs
        have hblock : m'.block = (s.mshrQueue.entries i).block := by
          rw [← hclear, hself]
          exact congrArg Prod.fst hplace₅
        have hblocking : Blocking s' := h.blocking.use hentries' (fun j hj _ => hlist.symm ▸ hj) rfl
          fun hmem => absurd hmem hnot
        obtain ⟨g', hused⟩ := h.use s' hp hown hstep (le_refl _) hentries' hconsistent
          ⟨hsize, hreserve⟩
          hfull ⟨rfl, rfl⟩ h.noTargets (h.single.update hentries' (fun j hj => hlist ▸ hj) hblock)
            hblocking
        refine ⟨s', ⟨some (i, [.respond now resp blk]), ready⟩, ?_, hused.kept True⟩
        rw [show MSHRQueue.markPending i (s.mshrQueue.update i m₅) = some q from hq,
          Option.map_some]
      · -- nothing is left
        rw [if_neg hpromote] at hfinish ⊢
        have hself := promote_eq_self hpromote
        obtain ⟨q, hq, g', hused⟩ := h.freed hi hp hown hstep (congrArg Prod.snd hplace) hfinish
          (fun hnil => (hresponse.shaped.free hnil).1) fun hmem => absurd hmem hnot
        rw [hself, hq, Option.map_some]
        exact ⟨_, _, rfl, hused.kept True⟩

/-- A response fails if a whole line was written and it does not invalidate, or in a clash. -/
theorem Safe.recvTimingResp (h : Safe info p s g) (now : ℕ) {resp : Packet} {blk : BlockInfo}
    (hi : i ∈ s.mshrQueue.allocatedList)
    (hp : MissRegister.promise info (s.register i, g i) (.respond now resp blk)) :
    (Fails info p s (.respond now i resp blk) ∧ s.recvTimingResp info now i resp blk = none) ∨
      ¬Fails info p s (.respond now i resp blk) ∧ ∃ s' event,
        s.recvTimingResp info now i resp blk = some (s', event) ∧
        ∀ leaves, Kept info p s g s' event True leaves := by
  by_cases hfull : s.noTargetMSHR = some i
  · -- the register takes requests again
    let s₁ : MissPath := { s with
      noTargets := false
      noTargetMSHR := none }
    have hsafe : Safe info p s₁ g :=
      ⟨h.mshrs, h.single, h.apart, h.registers, h.writes, h.sized, h.noMSHRs, h.noWBBuffers, rfl,
        fun _ hj => by cases hj⟩
    have heq : s.recvTimingResp info now i resp blk = s₁.recvTimingResp info now i resp blk := by
      unfold MissPath.recvTimingResp
      rw [if_pos hfull, if_neg (show s₁.noTargetMSHR ≠ some i from Option.some_ne_none i |>.symm)]
    rw [heq]
    rcases hsafe.respond now hi (Option.some_ne_none i).symm hp with
      hfails | ⟨hok, s', event, hs', hkept⟩
    · exact Or.inl hfails
    · exact Or.inr ⟨hok, s', event, hs', fun leaves =>
        ⟨(hkept leaves).safe, (hkept leaves).served, (hkept leaves).fifo, (hkept leaves).stay⟩⟩
  · exact h.respond now hi hfull hp

end Respond

/-! ### A step -/

section Step

variable {s s' : MissPath} {g : ℕ → MissRegister.History} {o : Op}

theorem not_blocked (h : Safe info p s g) (hblocked : s.isBlocked = false) :
    s.mshrQueue.isFull = false := by
  unfold isBlocked at hblocked
  simp only [Bool.or_eq_false_iff] at hblocked
  exact h.noMSHRs.symm.trans hblocked.1.1

/-- A miss after the writes of the blocks that it evicts. -/
theorem Safe.request (h : Safe info p s g) (now : ℕ) (writebacks : List Packet) (writebackTime : ℕ)
    (pkt : Packet) (forwardTime : ℕ) (hblocked : s.isBlocked = false) :
    (Fails info p s (.request now writebacks writebackTime pkt forwardTime) ∧
        step info p s (.request now writebacks writebackTime pkt forwardTime) = none) ∨
      ¬Fails info p s (.request now writebacks writebackTime pkt forwardTime) ∧ ∃ s' event,
        step info p s (.request now writebacks writebackTime pkt forwardTime) = some (s', event) ∧
        ∀ leaves, Kept info p s g s' event
          (Timely info p s (.request now writebacks writebackTime pkt forwardTime)) leaves := by
  unfold step Fails Timely
  dsimp only
  rcases h.doWritebacks now writebackTime writebacks with
    ⟨hfails, hnone⟩ | ⟨hbuffered, hroom, s₁, hs₁, hin⟩
  · refine Or.inl ⟨?_, by rw [hnone, Option.bind_none]⟩
    rcases hfails with hnot | hfew
    · exact Or.inl hnot
    · exact Or.inr (Or.inr (Or.inl (Nat.lt_add_right _ hfew)))
  · have hqueue : s₁.mshrQueue = s.mshrQueue := hin.only.mshrQueue
    have hto : s₁.toWriteBuffer info p pkt = s.toWriteBuffer info p pkt := by
      unfold toWriteBuffer
      rw [hqueue]
    have hasks : s₁.asks info p pkt = s.asks info p pkt := by
      unfold asks
      rw [hto, hqueue]
    have hrefused : s₁.Refused info p pkt ↔ s.Refused info p pkt := by
      unfold Refused
      rw [hto, hqueue]
    have hfew : s₁.writeBuffer.freeList.length < (s.toWriteBuffer info p pkt).toNat ↔
        s.writeBuffer.freeList.length < writebacks.length + (s.toWriteBuffer info p pkt).toNat := by
      rw [← hin.free]
      omega
    have hnone : ¬∃ wb ∈ writebacks, ¬Buffered info wb := by
      rintro ⟨wb, hwb, hnot⟩
      exact hnot (hbuffered wb hwb)
    have hmiss := hin.safe.handleTimingReqMiss now pkt forwardTime
      (hqueue.symm ▸ not_blocked h hblocked)
    rw [hto, hasks, hrefused, hfew, hin.only.above] at hmiss
    rw [hs₁, Option.bind_some, or_iff_right hnone]
    rcases hmiss with ⟨hfails, hnone⟩ | ⟨hok, s', event, hs', hkept⟩
    · exact Or.inl ⟨hfails, by rw [hnone, Option.map_none]⟩
    · refine Or.inr ⟨hok, s', event.after writebacks.length, ?_, fun leaves =>
        ⟨?_, fun j => ?_, fun htimely hfifo => ?_, (hin.stay leaves).trans (hkept leaves).stay⟩⟩
      · rw [hs', Option.map_some]
      · rw [track_after hqueue hin.order hin.only.above]
        exact (hkept leaves).safe
      · rw [track_after hqueue hin.order hin.only.above, servedBy_after]
        exact (hkept leaves).served j
      · obtain ⟨hwrites, hto'⟩ := htimely
        refine (hkept leaves).fifo (fun hneeds => ?_) (hin.fifo hfifo hwrites)
        obtain ⟨hready, hlater⟩ := hto' hneeds
        intro j hj hmatch
        rcases hin.mem j hj with ⟨hj, hitem⟩ | ⟨wb, hwb, haddr, hsecure, htime⟩
        · rw [hitem] at hmatch ⊢
          exact hready j hj hmatch
        · obtain ⟨haddr', hsecure'⟩ := matches_iff.1 hmatch
          rw [htime]
          exact hlater wb hwb (haddr.symm.trans haddr') (hsecure.symm.trans hsecure')

/-- Nothing is to be told by a register without targets. -/
theorem uppers_eq_nil {m : MSHR} (h : m.getNumTargets = 0) : m.uppers = [] := by
  have htargets : m.targets.list = [] :=
    List.length_eq_zero_iff.1 (Nat.eq_zero_of_add_eq_zero_right h)
  have hdeferred : m.deferredTargets.list = [] :=
    List.length_eq_zero_iff.1 (Nat.eq_zero_of_add_eq_zero_left h)
  unfold MSHR.uppers
  rw [htargets, hdeferred]
  rfl

/-- Another cache changes the flags of the registers above. -/
theorem Safe.changeAbove (h : Safe info p s g)
    {above : Above} (hp : promise info p (s, g) (.changeAbove above)) :
    Safe info p { s with above := above } g := by
  refine ⟨h.mshrs, h.single, h.apart, h.registers.changeAbove fun i r hr => ?_, h.writes,
    h.sized, h.noMSHRs, h.noWBBuffers, h.noTargets, h.blocking⟩
  by_cases hi : i ∈ s.mshrQueue.allocatedList
  · exact hp i hi r hr
  · rw [uppers_eq_nil (h.mshrs.free i hi)] at hr
    cases hr

/-- **An operation fails exactly in the cases of `Fails`, and keeps everything otherwise.** -/
theorem step_spec (h : Safe info p s g) (hp : promise info p (s, g) o) :
    (Fails info p s o ∧ step info p s o = none) ∨ ¬Fails info p s o ∧ ∃ s' event,
      step info p s o = some (s', event) ∧
      Kept info p s g s' event (Timely info p s o) fun w => Leaves info p s w o := by
  cases o with
  | request now writebacks writebackTime pkt forwardTime =>
      rcases h.request now writebacks writebackTime pkt forwardTime hp with
        hfails | ⟨hok, s', event, hs', hkept⟩
      · exact Or.inl hfails
      · exact Or.inr ⟨hok, s', event, hs', hkept _⟩
  | lockedHit now pkt =>
      obtain ⟨hblocked, hcmd⟩ := hp
      rcases h.lockedHit now (not_blocked h hblocked) hcmd with
        hfails | ⟨hok, s', event, hs', hkept⟩
      · exact Or.inl hfails
      · exact Or.inr ⟨hok, s', event, hs', hkept _⟩
  | evict pkt =>
      rcases h.accessEviction pkt with ⟨hfails, hnone⟩ | ⟨hok, s', hs', hfound⟩
      · exact Or.inl ⟨hfails, by rw [step, hnone, Option.map_none]⟩
      · refine Or.inr ⟨hok, s', nothing, ?_, hfound.kept h _⟩
        rw [step, hs', Option.map_some]
  | writeback now writebacks forwardTime =>
      rcases h.doWritebacks now forwardTime writebacks with
        ⟨hfails, hnone⟩ | ⟨hbuffered, hroom, s', hs', hin⟩
      · exact Or.inl ⟨hfails, by rw [step, hnone, Option.map_none]⟩
      · refine Or.inr ⟨?_, s', nothing, ?_, hin.safe, fun _ => (List.append_nil _).symm,
          fun htimely hfifo => hin.fifo hfifo htimely, hin.stay _⟩
        · rintro (⟨wb, hwb, hnot⟩ | hfew)
          · exact hnot (hbuffered wb hwb)
          · exact Nat.not_lt.2 hroom hfew
        · rw [step, hs', Option.map_some]
  | snoop now pkt mustCheckAbove =>
      obtain ⟨s', event, hs', hkept⟩ := h.recvTimingSnoopReq now mustCheckAbove hp.1 hp.2.1 hp.2.2
      exact Or.inr ⟨id, s', event, hs', hkept⟩
  | buffered i =>
      have hhas := h.mshrs.targets i hp.1
      exact Or.inr ⟨id, _, _, rfl, h.downstream (o := .buffered) hp.1 ⟨hhas, hp.2⟩
        (fun _ => MissRegister.Op.noConfusion) rfl rfl rfl rfl _⟩
  | clearDownstream i =>
      obtain ⟨m, above', hm, heq, -⟩ :=
        MSHR.clearDownstreamPending_spec (h.registers.good i).linked hp.2
      have hm : (s.mshrQueue.entries i).clearDownstreamPending s.above = some (m, above') := hm
      have hstep : MissRegister.step info ⟨s.mshrQueue.entries i, s.order, s.above⟩
          .clearDownstream =
          some (⟨m, s.order, above'⟩, []) := by
        rw [MissRegister.step, hm, Option.map_some]
      have hkept := h.downstream (o := .clearDownstream)
        hp.1 hp.2 (fun _ => MissRegister.Op.noConfusion) hstep
        (by rw [heq]; rfl) (by rw [heq]; exact MSHR.look_unmark _) (by rw [heq])
        fun w => Leaves info p s w (.clearDownstream i)
      refine Or.inr ⟨id, _, ⟨some (i, [.clearDownstream]), []⟩, ?_, hkept⟩
      rw [step, hm, Option.map_some]
  | send now prefetch reply => exact h.sendDeferredPacket now reply hp.1 hp.2
  | changeAbove above =>
      exact Or.inr ⟨id, _, nothing, rfl, h.changeAbove hp, fun _ => (List.append_nil _).symm,
        fun _ hfifo => hfifo, .refl _⟩
  | respond now i resp blk =>
      rcases h.recvTimingResp now hp.1 hp.2.2.2 with hfails | ⟨hok, s', event, hs', hkept⟩
      · exact Or.inl hfails
      · exact Or.inr ⟨hok, s', event, hs', hkept _⟩

end Step

end MissPath

end OpenCache
