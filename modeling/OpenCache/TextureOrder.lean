/-
The order of a texture cache.

The fragment FIFO holds every accepted request until its data are there, in the order of the
accesses; the reorder buffer holds the misses among them, in the same order, and memory may answer
them in any order.  So the requests leave as they came.

* `OpenCache.TexCache.Accessed`, `OpenCache.TexCache.Retired` — what an access and the second half
  of a cycle do to the FIFOs;
* `OpenCache.TexCache.Ordered` — the invariant that ties the four FIFOs, the remembered requests and
  the requests below the cache together;
* `OpenCache.texture_completes_in_order` — **every request is returned once, in the order of the
  accesses**, and no FIFO overflows or is popped when empty;
* `OpenCache.TexCache.access_refused` — a refused access changes nothing.
-/

import OpenCache.Texture
import OpenCache.Aborts

set_option relaxedAutoImplicit false
set_option autoImplicit false

namespace OpenCache

variable {cfg : CacheConfig}

namespace TexCache

/-! ### What the methods do to the FIFOs -/

/-- The ways an access can end. -/
inductive Accessed (c : TexCache cfg) (addr : NewAddrType) (mf : Token) (time : Time) :
    CacheRequestStatus → TexCache cfg → Prop
  /-- A FIFO was full. -/
  | refused : Accessed c addr mf time .reservationFail c
  /-- The block will be in the cache already. -/
  | hit (c' : TexCache cfg) (tags : TagArray cfg) (r : AccessResult)
      (hsize : (c.mfs mf).dataSize ≤ cfg.lineSz)
      (htags : c.tags.accessNoWriteback (cfg.blockAddr addr) time Cache.noIndex (c.mfs mf) =
        .ok (tags, r))
      (hfail : r.status ≠ .reservationFail) (hreserved : r.status ≠ .hitReserved)
      (hmiss : r.status ≠ .miss)
      (hfragments : c'.fragmentFifo.toList =
        c.fragmentFifo.toList ++ [⟨mf, r.idx, false, (c.mfs mf).dataSize⟩])
      (hothers : c'.tags = tags ∧ c'.requestFifo = c.requestFifo ∧ c'.rob = c.rob ∧
        c'.cache = c.cache ∧ c'.resultFifo = c.resultFifo ∧
        c'.extraMfFields = c.extraMfFields ∧ c'.mfs = c.mfs) :
      Accessed c addr mf time .hitReserved c'
  /-- A request is sent to memory. -/
  | miss (c' : TexCache cfg) (tags : TagArray cfg) (r : AccessResult)
      (hsize : (c.mfs mf).dataSize ≤ cfg.lineSz)
      (htags : c.tags.accessNoWriteback (cfg.blockAddr addr) time Cache.noIndex (c.mfs mf) =
        .ok (tags, r))
      (hmiss : r.status = .miss)
      (hfill : tags.fillIndex r.idx { c.mfs mf with dataSize := cfg.lineSz } = .ok c'.tags)
      (hfragments : c'.fragmentFifo.toList =
        c.fragmentFifo.toList ++ [⟨mf, r.idx, true, (c.mfs mf).dataSize⟩])
      (hrob : c'.rob.toList = c.rob.toList ++ [⟨false, 0, r.idx, mf, cfg.blockAddr addr⟩])
      (hslots : ∀ k, c'.rob.slot k = c.rob.slot k)
      (hrequests : c'.requestFifo.toList = c.requestFifo.toList ++ [mf])
      (hextra : c'.extraMfFields =
        c.extraMfFields.insert mf (TexExtraMfFields.new cfg (c.rob.slot c.rob.num)))
      (hmfs : c'.mfs = Function.update c.mfs mf { c.mfs mf with dataSize := cfg.lineSz })
      (hothers : c'.cache = c.cache ∧ c'.resultFifo = c.resultFifo) :
      Accessed c addr mf time .miss c'

/-- **What an access does.** -/
theorem accessed_of_access {c c' : TexCache cfg} {addr : NewAddrType} {mf : Token} {time : Time}
    {events events' : List CacheEvent} {status : CacheRequestStatus}
    (h : c.access addr mf time events = .ok (c', status, events')) :
    c.Accessed addr mf time status c' := by
  unfold access at h
  split at h
  · cases h
    exact .refused
  · obtain ⟨_, hsize, h⟩ := bind_eq_ok.1 h
    obtain ⟨⟨tags, r⟩, htags, h⟩ := bind_eq_ok.1 h
    obtain ⟨_, hfail, h⟩ := bind_eq_ok.1 h
    obtain ⟨_, hreserved, h⟩ := bind_eq_ok.1 h
    obtain ⟨⟨fragmentFifo, i⟩, hpush, h⟩ := bind_eq_ok.1 h
    obtain ⟨⟨c₁, cacheStatus, events₁⟩, hsend, h⟩ := bind_eq_ok.1 h
    rw [assertThat_eq_ok] at hsize hfail hreserved
    have hfragments := (fifoPush_eq_ok hpush).1
    dsimp only at hfail hreserved hfragments hsend h
    unfold answer at hsend
    by_cases hmiss : r.status = .miss
    · rw [if_pos hmiss] at hsend
      obtain ⟨⟨rob, robIndex⟩, hrob, hsend⟩ := bind_eq_ok.1 hsend
      obtain ⟨filled, hfill, hsend⟩ := bind_eq_ok.1 hsend
      obtain ⟨⟨requestFifo, j⟩, hrequest, hsend⟩ := bind_eq_ok.1 hsend
      obtain ⟨hroblist, hindex, -, hslots⟩ := fifoPush_eq_ok hrob
      dsimp only at hindex
      cases hsend
      cases h
      rw [decide_eq_true hmiss] at hfragments
      refine .miss _ tags r hsize htags hmiss hfill hfragments hroblist hslots
        (fifoPush_eq_ok hrequest).1 ?_ rfl ⟨rfl, rfl⟩
      rw [← hindex]
      rfl
    · rw [if_neg hmiss] at hsend
      cases hsend
      cases h
      rw [decide_eq_false hmiss] at hfragments
      exact .hit _ tags r hsize htags hfail hreserved hmiss hfragments
        ⟨rfl, rfl, rfl, rfl, rfl, rfl, rfl⟩

/-- **A refused access changes nothing.** -/
theorem access_refused {c c' : TexCache cfg} {addr : NewAddrType} {mf : Token} {time : Time}
    {events events' : List CacheEvent}
    (h : c.access addr mf time events = .ok (c', .reservationFail, events')) :
    c' = c ∧ events' = events := by
  unfold access at h
  split at h
  · cases h
    exact ⟨rfl, rfl⟩
  · obtain ⟨_, -, h⟩ := bind_eq_ok.1 h
    obtain ⟨⟨tags, r⟩, -, h⟩ := bind_eq_ok.1 h
    obtain ⟨_, -, h⟩ := bind_eq_ok.1 h
    obtain ⟨_, -, h⟩ := bind_eq_ok.1 h
    obtain ⟨⟨fragmentFifo, i⟩, -, h⟩ := bind_eq_ok.1 h
    obtain ⟨⟨c₁, cacheStatus, events₁⟩, hsend, h⟩ := bind_eq_ok.1 h
    unfold answer at hsend
    split at hsend
    · obtain ⟨_, -, hsend⟩ := bind_eq_ok.1 hsend
      obtain ⟨_, -, hsend⟩ := bind_eq_ok.1 hsend
      obtain ⟨_, -, hsend⟩ := bind_eq_ok.1 hsend
      cases hsend
      cases h
    · cases hsend
      cases h

/-- What the first half of a cycle does. -/
theorem sendToMemory_eq_ok {c c' : TexCache cfg} {memportFull : Bool} {pushed : Option Token}
    (h : c.sendToMemory memportFull = .ok (c', pushed)) :
    c.requestFifo.toList = pushed.toList ++ c'.requestFifo.toList ∧
      c'.tags = c.tags ∧ c'.fragmentFifo = c.fragmentFifo ∧ c'.rob = c.rob ∧ c'.cache = c.cache ∧
      c'.resultFifo = c.resultFifo ∧ c'.extraMfFields = c.extraMfFields ∧ c'.mfs = c.mfs := by
  unfold sendToMemory at h
  split at h
  · cases h
    exact ⟨rfl, rfl, rfl, rfl, rfl, rfl, rfl, rfl⟩
  · next mf hmf =>
      split at h
      · cases h
        exact ⟨rfl, rfl, rfl, rfl, rfl, rfl, rfl, rfl⟩
      · obtain ⟨⟨requestFifo, mf'⟩, hpop, h⟩ := bind_eq_ok.1 h
        have hlist := (fifoPop_eq_ok hpop).1
        rw [RingBuffer.first?_eq_head?, hlist, List.head?_cons, Option.some_inj] at hmf
        cases h
        rw [hmf] at hlist
        exact ⟨hlist, rfl, rfl, rfl, rfl, rfl, rfl, rfl⟩

/-- The ways the second half of a cycle can end. -/
inductive Retired (c : TexCache cfg) : TexCache cfg → Prop
  /-- There is nothing to return, or no room for it. -/
  | waits : Retired c c
  /-- The data of a miss are back, and go into the cache. -/
  | miss (c' : TexCache cfg) (e : FragmentEntry) (r : RobEntry) (hmiss : e.miss = true)
      (hready : r.ready = true) (hrequest : r.request = e.request) (hindex : r.index = e.cacheIndex)
      (hfragments : c.fragmentFifo.toList = e :: c'.fragmentFifo.toList)
      (hrob : c.rob.toList = r :: c'.rob.toList) (hslots : ∀ k, c'.rob.slot k = c.rob.slot (k + 1))
      (hresults : c'.resultFifo.toList = c.resultFifo.toList ++ [e.request])
      (hcache : c'.cache = Function.update c.cache r.index ⟨true, r.blockAddr⟩)
      (hothers : c'.tags = c.tags ∧ c'.requestFifo = c.requestFifo ∧
        c'.extraMfFields = c.extraMfFields ∧ c'.mfs = c.mfs) : Retired c c'
  /-- The data of a hit are in the cache. -/
  | hit (c' : TexCache cfg) (e : FragmentEntry) (hmiss : e.miss = false)
      (hfragments : c.fragmentFifo.toList = e :: c'.fragmentFifo.toList)
      (hresults : c'.resultFifo.toList = c.resultFifo.toList ++ [e.request])
      (hothers : c'.tags = c.tags ∧ c'.requestFifo = c.requestFifo ∧ c'.rob = c.rob ∧
        c'.cache = c.cache ∧ c'.extraMfFields = c.extraMfFields ∧ c'.mfs = c.mfs) : Retired c c'

/-- `m_rob.peek(m_rob.next_pop_index())` is the oldest entry. -/
theorem eq_of_fifoPeek_tail {α : Type} {size : ℕ} {b : RingBuffer α size} {e e' : α} {l : List α}
    (h : fifoPeek b b.tail = .ok e) (hlist : b.toList = e' :: l) : e = e' := by
  have hnum : 0 < b.num := by
    rw [← b.length_toList, hlist]
    exact Nat.succ_pos _
  obtain ⟨_, -, h⟩ := bind_eq_ok.1 h
  rw [b.data_tail hnum, hlist, List.getElem?_cons_zero] at h
  cases h
  rfl

/-- **What the second half of a cycle does.** -/
theorem retired_of_retireFragment {c c' : TexCache cfg} (h : c.retireFragment = .ok c') :
    c.Retired c' := by
  unfold retireFragment at h
  split at h
  · cases h
    exact .waits
  · next e he =>
      rw [RingBuffer.first?_eq_head?] at he
      split at h
      · cases h
        exact .waits
      · split at h
        · next hmiss =>
            obtain ⟨r, hr, h⟩ := bind_eq_ok.1 h
            obtain ⟨_, hrequest, h⟩ := bind_eq_ok.1 h
            split at h
            · next hready =>
                obtain ⟨_, hindex, h⟩ := bind_eq_ok.1 h
                obtain ⟨⟨resultFifo, _⟩, hresult, h⟩ := bind_eq_ok.1 h
                obtain ⟨⟨rob, r'⟩, hrob, h⟩ := bind_eq_ok.1 h
                obtain ⟨⟨fragmentFifo, e'⟩, hfragment, h⟩ := bind_eq_ok.1 h
                cases h
                obtain ⟨hroblist, hslots⟩ := fifoPop_eq_ok hrob
                have hfragments := (fifoPop_eq_ok hfragment).1
                rw [hfragments, List.head?_cons, Option.some_inj] at he
                rw [he] at hfragments
                rw [← eq_of_fifoPeek_tail hr hroblist] at hroblist
                exact .miss _ e r hmiss hready (assertThat_eq_ok.1 hrequest)
                  (assertThat_eq_ok.1 hindex) hfragments hroblist hslots (fifoPush_eq_ok hresult).1
                  rfl ⟨rfl, rfl, rfl, rfl⟩
            · cases h
              exact .waits
        · next hmiss =>
            obtain ⟨_, -, h⟩ := bind_eq_ok.1 h
            obtain ⟨_, -, h⟩ := bind_eq_ok.1 h
            obtain ⟨⟨resultFifo, _⟩, hresult, h⟩ := bind_eq_ok.1 h
            obtain ⟨⟨fragmentFifo, e'⟩, hfragment, h⟩ := bind_eq_ok.1 h
            cases h
            have hfragments := (fifoPop_eq_ok hfragment).1
            rw [hfragments, List.head?_cons, Option.some_inj] at he
            rw [he] at hfragments
            exact .hit _ e (Bool.eq_false_iff.2 hmiss) hfragments (fifoPush_eq_ok hresult).1
              ⟨rfl, rfl, rfl, rfl, rfl, rfl⟩

/-- What a complete response does. -/
theorem fillComplete_eq_ok {c c' : TexCache cfg} {mf : Token} {time : Time}
    (h : c.fillComplete mf time = .ok c') :
    ∃ e, c.extraMfFields.lookup mf = some e ∧
      c' = { c with
        rob := c.rob.modify e.robIndex fun r => { r with ready := true, time }
        extraMfFields := c.extraMfFields.erase mf } := by
  unfold fillComplete at h
  split at h
  · cases h
  · next e he =>
      obtain ⟨_, -, h⟩ := bind_eq_ok.1 h
      obtain ⟨_, -, h⟩ := bind_eq_ok.1 h
      obtain ⟨r, -, h⟩ := bind_eq_ok.1 h
      obtain ⟨_, -, h⟩ := bind_eq_ok.1 h
      obtain ⟨_, -, h⟩ := bind_eq_ok.1 h
      cases h
      exact ⟨e, he, rfl⟩

/-! ### The invariant -/

/-- **What ties the FIFOs together.**  The requests in flight are different; the reorder buffer
holds the misses of the fragment FIFO in their order; and the requests that were sent to memory and
have no response yet are the remembered ones, each with the slot of its reorder buffer entry. -/
structure Ordered (c : TexCache cfg) (below : List Token) : Prop where
  nodup : (c.resultFifo.toList ++ c.fragmentFifo.toList.map FragmentEntry.request).Nodup
  rob : c.rob.toList.map (fun r => (r.request, r.index)) =
    (c.fragmentFifo.toList.filter FragmentEntry.miss).map fun e => (e.request, e.cacheIndex)
  block : ∀ r ∈ c.rob.toList, r.blockAddr = cfg.blockAddr (c.mfs r.request).addr
  sent_nodup : (c.requestFifo.toList ++ below).Nodup
  sent : ∀ t, t ∈ c.requestFifo.toList ++ below ↔ (c.extraMfFields.lookup t).isSome = true
  waits : ∀ t e, c.extraMfFields.lookup t = some e → e.valid = true ∧
    ∃ k r, c.rob.toList[k]? = some r ∧ e.robIndex = c.rob.slot k ∧ r.request = t ∧ r.ready = false

namespace Ordered

variable {c c' : TexCache cfg} {below : List Token}

theorem init (mfs : Token → MemFetch) : Ordered (TexCache.init cfg mfs) [] where
  nodup := List.nodup_nil
  rob := rfl
  block := fun r hr => absurd hr List.not_mem_nil
  sent_nodup := List.nodup_nil
  sent := fun t => ⟨fun ht => absurd ht List.not_mem_nil,
    fun ht => absurd ht (by simp [TexCache.init])⟩
  waits := fun t e he => by cases he

/-- An entry of the reorder buffer belongs to a miss in the fragment FIFO. -/
theorem fragment_of_rob (h : Ordered c below) {r : RobEntry} (hr : r ∈ c.rob.toList) :
    ∃ e ∈ c.fragmentFifo.toList, e.miss = true ∧ e.request = r.request ∧
    e.cacheIndex = r.index := by
  have hmem : (r.request, r.index) ∈ c.rob.toList.map fun r => (r.request, r.index) :=
    List.mem_map.2 ⟨r, hr, rfl⟩
  rw [h.rob] at hmem
  obtain ⟨e, he, heq⟩ := List.mem_map.1 hmem
  obtain ⟨hmem, hmiss⟩ := List.mem_filter.1 he
  rw [Prod.mk.injEq] at heq
  exact ⟨e, hmem, hmiss, heq.1, heq.2⟩

theorem rob_mem (h : Ordered c below) {r : RobEntry} (hr : r ∈ c.rob.toList) :
    r.request ∈ c.resultFifo.toList ++ c.fragmentFifo.toList.map FragmentEntry.request := by
  obtain ⟨e, he, -, hreq, -⟩ := h.fragment_of_rob hr
  exact List.mem_append_right _ (List.mem_map.2 ⟨e, he, hreq⟩)

/-- A request that waits for its response is in flight. -/
theorem sent_mem (h : Ordered c below) {t : Token} (ht : t ∈ c.requestFifo.toList ++ below) :
    t ∈ c.resultFifo.toList ++ c.fragmentFifo.toList.map FragmentEntry.request := by
  obtain ⟨e, he⟩ := Option.isSome_iff_exists.1 ((h.sent t).1 ht)
  obtain ⟨-, k, r, hr, -, rfl, -⟩ := h.waits t e he
  exact h.rob_mem (List.mem_of_getElem? hr)

/-- The objects of other requests do not matter. -/
theorem of_mfs (h : Ordered c below) {mfs : Token → MemFetch}
    (hmfs : ∀ t ∈ c.resultFifo.toList ++ c.fragmentFifo.toList.map FragmentEntry.request,
      (mfs t).addr = (c.mfs t).addr) : Ordered { c with mfs } below where
  nodup := h.nodup
  rob := h.rob
  block := fun r hr => by rw [h.block r hr, hmfs _ (h.rob_mem hr)]
  sent_nodup := h.sent_nodup
  sent := h.sent
  waits := h.waits

theorem access (h : Ordered c below) {addr : NewAddrType} {mf : Token} {time : Time}
    {status : CacheRequestStatus}
    (hnew : mf ∉ c.resultFifo.toList ++ c.fragmentFifo.toList.map FragmentEntry.request)
    (haddr : addr = (c.mfs mf).addr) (hcase : c.Accessed addr mf time status c') :
    Ordered c' below := by
  have happend : (c.resultFifo.toList ++ (c.fragmentFifo.toList.map FragmentEntry.request ++
      [mf])).Nodup := by
    rw [← List.append_assoc]
    exact (List.perm_append_singleton mf _).nodup_iff.2 (List.nodup_cons.2 ⟨hnew, h.nodup⟩)
  cases hcase with
  | refused => exact h
  | hit _ tags r _ _ _ _ _ hfragments hothers =>
      obtain ⟨-, hrequests, hrob, -, hresults, hextra, hmfs⟩ := hothers
      refine ⟨?_, ?_, ?_, ?_, ?_, ?_⟩
      · rw [hresults, hfragments, List.map_append]
        exact happend
      · rw [hrob, hfragments, List.filter_append, h.rob]
        simp
      · rw [hrob, hmfs]
        exact h.block
      · rw [hrequests]
        exact h.sent_nodup
      · rw [hrequests, hextra]
        exact h.sent
      · rw [hrob, hextra]
        exact h.waits
  | miss _ tags r _ _ _ _ hfragments hrob hslots hrequests hextra hmfs hothers =>
      obtain ⟨-, hresults⟩ := hothers
      have hunsent : mf ∉ c.requestFifo.toList ++ below := fun ht => hnew (h.sent_mem ht)
      refine ⟨?_, ?_, ?_, ?_, ?_, ?_⟩
      · rw [hresults, hfragments, List.map_append]
        exact happend
      · rw [hrob, hfragments, List.filter_append, List.map_append, List.map_append, h.rob]
        simp
      · intro r' hr'
        have haddr' : ∀ t, (c'.mfs t).addr = (c.mfs t).addr := by
          intro t
          rw [hmfs]
          by_cases ht : t = mf
          · subst ht
            rw [Function.update_self]
          · rw [Function.update_of_ne ht]
        rw [haddr']
        rw [hrob] at hr'
        rcases List.mem_append.1 hr' with hr' | hr'
        · exact h.block r' hr'
        · rw [List.mem_singleton.1 hr', haddr]
      · rw [hrequests, List.append_assoc]
        have hperm : (c.requestFifo.toList ++ ([mf] ++ below)).Perm
            (mf :: (c.requestFifo.toList ++ below)) := List.perm_middle
        exact hperm.nodup_iff.2 (List.nodup_cons.2 ⟨hunsent, h.sent_nodup⟩)
      · intro t
        rw [hrequests, hextra]
        by_cases ht : t = mf
        · subst ht
          simp
        · rw [AList.lookup_insert_ne ht, ← h.sent t]
          simp [ht]
      · intro t e he
        rw [hextra] at he
        by_cases ht : t = mf
        · subst ht
          rw [AList.lookup_insert] at he
          obtain rfl := Option.some_inj.1 he
          refine ⟨rfl, c.rob.num, ⟨false, 0, r.idx, t, cfg.blockAddr addr⟩, ?_, (hslots _).symm,
            rfl, rfl⟩
          rw [hrob, ← c.rob.length_toList, List.getElem?_concat_length]
        · rw [AList.lookup_insert_ne ht] at he
          obtain ⟨hvalid, k, r', hr', hslot, hreq, hready⟩ := h.waits t e he
          refine ⟨hvalid, k, r', ?_, hslot.trans (hslots k).symm, hreq, hready⟩
          have hlt : k < c.rob.toList.length := (List.getElem?_eq_some_iff.1 hr').1
          rw [hrob, List.getElem?_append_left hlt]
          exact hr'

theorem sendToMemory (h : Ordered c below) {memportFull : Bool} {pushed : Option Token}
    (hsend : c.sendToMemory memportFull = .ok (c', pushed)) :
    Ordered c' (below ++ pushed.toList) := by
  obtain ⟨hrequests, -, hfragments, hrob, -, hresults, hextra, hmfs⟩ := sendToMemory_eq_ok hsend
  have hperm : (c'.requestFifo.toList ++ (below ++ pushed.toList)).Perm
      (c.requestFifo.toList ++ below) := by
    rw [hrequests, ← List.append_assoc, List.append_assoc pushed.toList]
    exact List.perm_append_comm
  refine ⟨?_, ?_, ?_, ?_, ?_, ?_⟩
  · rw [hresults, hfragments]
    exact h.nodup
  · rw [hrob, hfragments]
    exact h.rob
  · rw [hrob, hmfs]
    exact h.block
  · exact hperm.nodup_iff.2 h.sent_nodup
  · intro t
    rw [hperm.mem_iff, hextra]
    exact h.sent t
  · rw [hextra, hrob]
    exact h.waits

theorem retireFragment (h : Ordered c below) (hcase : c.Retired c') : Ordered c' below := by
  have hnodup : ∀ (e : FragmentEntry) (l : List FragmentEntry),
      c.fragmentFifo.toList = e :: l →
      (c.resultFifo.toList ++ [e.request] ++ l.map FragmentEntry.request).Nodup := by
    intro e l hl
    have hold := h.nodup
    rw [hl, List.map_cons] at hold
    rw [List.append_assoc]
    exact hold
  cases hcase with
  | waits => exact h
  | miss _ e r hmiss hready _ _ hfragments hrob hslots hresults _ hothers =>
      obtain ⟨-, hrequests, hextra, hmfs⟩ := hothers
      refine ⟨?_, ?_, ?_, ?_, ?_, ?_⟩
      · rw [hresults]
        exact hnodup e _ hfragments
      · have hold := h.rob
        rw [hrob, hfragments, List.filter_cons, if_pos hmiss] at hold
        exact (List.cons.inj hold).2
      · intro r' hr'
        rw [hmfs]
        exact h.block r' (by rw [hrob]; exact List.mem_cons_of_mem _ hr')
      · rw [hrequests]
        exact h.sent_nodup
      · rw [hrequests, hextra]
        exact h.sent
      · intro t e' he'
        rw [hextra] at he'
        obtain ⟨hvalid, k, r', hr', hslot, hreq, hunready⟩ := h.waits t e' he'
        rw [hrob] at hr'
        -- the entry that leaves is ready, so it is not the one of a request that waits
        cases k with
        | zero =>
            rw [List.getElem?_cons_zero, Option.some_inj] at hr'
            rw [← hr', hready] at hunready
            cases hunready
        | succ k =>
            rw [List.getElem?_cons_succ] at hr'
            exact ⟨hvalid, k, r', hr', hslot.trans (hslots k).symm, hreq, hunready⟩
  | hit _ e hmiss hfragments hresults hothers =>
      obtain ⟨-, hrequests, hrob, -, hextra, hmfs⟩ := hothers
      refine ⟨?_, ?_, ?_, ?_, ?_, ?_⟩
      · rw [hresults]
        exact hnodup e _ hfragments
      · have hold := h.rob
        rw [hfragments, List.filter_cons, if_neg (by simp [hmiss])] at hold
        rw [hrob, hold]
      · rw [hrob, hmfs]
        exact h.block
      · rw [hrequests]
        exact h.sent_nodup
      · rw [hrequests, hextra]
        exact h.sent
      · rw [hrob, hextra]
        exact h.waits

theorem cycle (h : Ordered c below) {memportFull : Bool} {pushed : Option Token}
    (hcycle : c.cycle memportFull = .ok (c', pushed)) : Ordered c' (below ++ pushed.toList) := by
  obtain ⟨⟨c₁, pushed₁⟩, hsend, hcycle⟩ := bind_eq_ok.1 hcycle
  obtain ⟨c₂, hretire, hcycle⟩ := bind_eq_ok.1 hcycle
  cases hcycle
  exact (h.sendToMemory hsend).retireFragment (retired_of_retireFragment hretire)

/-- A response completes a request below the cache. -/
theorem fillComplete (h : Ordered c below) {mf : Token} {time : Time} (hmf : mf ∈ below)
    (hfill : c.fillComplete mf time = .ok c') : Ordered c' (below.erase mf) := by
  obtain ⟨e, he, rfl⟩ := fillComplete_eq_ok hfill
  obtain ⟨hvalid, k, r, hr, hslot, hreq, hready⟩ := h.waits mf e he
  have hk : k < c.rob.num := by
    rw [← c.rob.length_toList]
    exact (List.getElem?_eq_some_iff.1 hr).1
  have hrob := c.rob.toList_modify hk fun r => { r with ready := true, time }
  rw [← hslot] at hrob
  obtain ⟨hrequests, hbelow, hdisjoint⟩ := List.nodup_append.1 h.sent_nodup
  refine ⟨h.nodup, ?_, ?_, ?_, ?_, ?_⟩
  · dsimp only
    rw [hrob, ← h.rob]
    refine List.ext_getElem? fun j => ?_
    rw [List.getElem?_map, List.getElem?_map, List.getElem?_modify, Option.map_eq_map,
      Option.map_map]
    refine congrArg (Option.map · _) (funext fun r' => ?_)
    dsimp only [Function.comp]
    split <;> rfl
  · intro r' hr'
    dsimp only at hr'
    rw [hrob] at hr'
    obtain ⟨j, hj⟩ := List.getElem?_of_mem hr'
    rw [List.getElem?_modify, Option.map_eq_map, Option.map_eq_some_iff] at hj
    obtain ⟨r₀, hr₀, rfl⟩ := hj
    have hblock := h.block r₀ (List.mem_of_getElem? hr₀)
    split
    · exact hblock
    · exact hblock
  · exact h.sent_nodup.sublist (List.Sublist.append_left List.erase_sublist _)
  · intro t
    dsimp only
    by_cases ht : t = mf
    · subst ht
      rw [AList.lookup_erase]
      refine ⟨fun hmem => ?_, by simp⟩
      rcases List.mem_append.1 hmem with hmem | hmem
      · exact absurd rfl (hdisjoint t hmem t hmf)
      · exact absurd hmem hbelow.not_mem_erase
    · rw [AList.lookup_erase_ne ht, ← h.sent t, List.mem_append, List.mem_append,
        List.mem_erase_of_ne ht]
  · intro t e' he'
    dsimp only at he' ⊢
    by_cases ht : t = mf
    · subst ht
      rw [AList.lookup_erase] at he'
      cases he'
    · rw [AList.lookup_erase_ne ht] at he'
      obtain ⟨hvalid', j, r', hr', hslot', hreq', hready'⟩ := h.waits t e' he'
      have hjk : k ≠ j := by
        rintro rfl
        rw [hr, Option.some_inj] at hr'
        exact ht (hreq'.symm.trans ((congrArg RobEntry.request hr'.symm).trans hreq))
      refine ⟨hvalid', j, r', ?_, hslot', hreq', hready'⟩
      rw [hrob, List.getElem?_modify, hr', Option.map_eq_map, Option.map_some, if_neg hjk]

/-- The number of children that are missing does not matter. -/
theorem withPending (h : Ordered c below) {t : Token} {e : TexExtraMfFields}
    (he : c.extraMfFields.lookup t = some e) (pendingRead : BitVec 32) :
    Ordered { c with extraMfFields := c.extraMfFields.insert t { e with pendingRead } } below where
  nodup := h.nodup
  rob := h.rob
  block := h.block
  sent_nodup := h.sent_nodup
  sent := by
    intro t'
    dsimp only
    by_cases ht : t' = t
    · subst ht
      rw [AList.lookup_insert, h.sent, he]
      rfl
    · rw [AList.lookup_insert_ne ht]
      exact h.sent t'
  waits := by
    intro t' e' he'
    dsimp only at he'
    by_cases ht : t' = t
    · subst ht
      rw [AList.lookup_insert] at he'
      obtain rfl := Option.some_inj.1 he'
      exact h.waits t' e he
    · rw [AList.lookup_insert_ne ht] at he'
      exact h.waits t' e' he'

/-- The oldest entry of the reorder buffer is that of the first miss. -/
theorem rob_of_miss (h : Ordered c below) {e : FragmentEntry} {l : List FragmentEntry}
    (hfragments : c.fragmentFifo.toList = e :: l) (hmiss : e.miss = true) :
    ∃ r rest, c.rob.toList = r :: rest ∧ r.request = e.request ∧ r.index = e.cacheIndex := by
  have hrob := h.rob
  rw [hfragments, List.filter_cons, if_pos hmiss, List.map_cons] at hrob
  obtain ⟨r, rest, hlist, hr, -⟩ := List.map_eq_cons_iff.1 hrob
  rw [Prod.mk.injEq] at hr
  exact ⟨r, rest, hlist, hr.1, hr.2⟩

/-- A response to a request below the cache is taken. -/
theorem fillComplete_ok (h : Ordered c below) {mf : Token} (hmf : mf ∈ below) (time : Time) :
    ∃ c', c.fillComplete mf time = .ok c' := by
  obtain ⟨e, he⟩ := Option.isSome_iff_exists.1 ((h.sent mf).1 (List.mem_append_right _ hmf))
  obtain ⟨hvalid, k, r, hr, hslot, hreq, hready⟩ := h.waits mf e he
  have hnonempty : c.rob.isEmpty = false := by
    rw [RingBuffer.isEmpty, decide_eq_false_iff_not, ← c.rob.toList_eq_nil]
    rintro hnil
    rw [hnil] at hr
    cases hr
  have hblock : r.blockAddr = cfg.blockAddr (c.mfs mf).addr := by
    rw [h.block r (List.mem_of_getElem? hr), hreq]
  refine ⟨{ c with
    rob := c.rob.modify e.robIndex fun r => { r with ready := true, time }
    extraMfFields := c.extraMfFields.erase mf }, ?_⟩
  unfold TexCache.fillComplete
  rw [he]
  refine bind_eq_ok.2 ⟨(), assertThat_of _ hvalid, bind_eq_ok.2 ⟨(), assertThat_of _ hnonempty, ?_⟩⟩
  refine bind_eq_ok.2 ⟨r, ?_, bind_eq_ok.2 ⟨(), assertThat_of _ hready, ?_⟩⟩
  · rw [hslot]
    exact fifoPeek_slot hr
  · exact bind_eq_ok.2 ⟨(), assertThat_of _ hblock, rfl⟩

end Ordered

/-! ### The assertions that can fail -/

open Raises

section Only

variable {P : Abort → Prop} {c : TexCache cfg} {below : List Token}

theorem fifoPush_only {α : Type} {size : ℕ} {r : RingBuffer α size} (h : r.full = false) (e : α) :
    Only P (fifoPush r e) := by
  obtain ⟨r', hr'⟩ := fifoPush_of_not_full h e
  rw [hr']
  exact .ok _

theorem fifoPop_only {α : Type} {size : ℕ} {r : RingBuffer α size} (h : r.toList ≠ []) :
    Only P (fifoPop r) := by
  obtain ⟨r', e, hr'⟩ := fifoPop_of_ne_nil h
  rw [hr']
  exact .ok _

/-- An access fails on the size of the request, in the tags, or on their answer. -/
theorem access_only {addr : NewAddrType} {mf : Token} {time : Time}
    (hsize : cfg.lineSz < (c.mfs mf).dataSize → P .texAccessDataSize)
    (htags : Only P
      (c.tags.accessNoWriteback (cfg.blockAddr addr) time Cache.noIndex (c.mfs mf)))
    (hstatus : ∀ tags r,
      c.tags.accessNoWriteback (cfg.blockAddr addr) time Cache.noIndex (c.mfs mf) =
        .ok (tags, r) →
      (r.status = .reservationFail → P .texAccessReservationFail) ∧
        (r.status = .hitReserved → P .texAccessHitReserved) ∧
        Only P (tags.fillIndex r.idx { c.mfs mf with dataSize := cfg.lineSz }))
    (events : List CacheEvent) : Only P (c.access addr mf time events) := by
  refine .ite (fun _ => .ok _) fun hroom => ?_
  rw [Bool.or_eq_true, Bool.or_eq_true, not_or, not_or, Bool.not_eq_true, Bool.not_eq_true,
    Bool.not_eq_true] at hroom
  obtain ⟨⟨hfragments, hrequests⟩, hrob⟩ := hroom
  refine .bind (assertThat_only fun hn => hsize (not_le.1 hn)) fun _ _ => .bind htags fun r hr => ?_
  obtain ⟨hfail, hreserved, hfill⟩ := hstatus r.1 r.2 hr
  refine .bind (assertThat_only fun hn => hfail (not_not.1 hn)) fun _ _ =>
    .bind (assertThat_only fun hn => hreserved (not_not.1 hn)) fun _ _ =>
      .bind (fifoPush_only hfragments _) fun _ _ => .bind ?_ fun _ _ => .ok _
  refine .ite (fun _ => ?_) fun _ => .ok _
  exact .bind (fifoPush_only hrob _) fun _ _ => .bind hfill fun _ _ =>
    .bind (fifoPush_only hrequests _) fun _ _ => .ok _

/-- A cycle fails only on the data of a hit. -/
theorem cycle_only (h : Ordered c below) (memportFull : Bool)
    (hhit : ∀ e, c.fragmentFifo.toList.head? = some e → e.miss = false →
      ((c.cache e.cacheIndex).valid = false → P .texCycleHitInvalid) ∧
        ((c.cache e.cacheIndex).blockAddr ≠ cfg.blockAddr (c.mfs e.request).addr →
          P .texCycleHitBlock)) :
    Only P (c.cycle memportFull) := by
  have hsend : Only P (c.sendToMemory memportFull) := by
    unfold sendToMemory
    split
    · exact .ok _
    · next mf hmf =>
        rw [RingBuffer.first?_eq_head?] at hmf
        refine .ite (fun _ => .ok _) fun _ => .bind (fifoPop_only fun hnil => ?_) fun _ _ => .ok _
        rw [hnil] at hmf
        cases hmf
  refine .bind hsend fun r hr => .bind ?_ fun _ _ => .ok _
  have hordered := h.sendToMemory hr
  obtain ⟨-, -, hfragments, -, hcache, -, -, hmfs⟩ := sendToMemory_eq_ok hr
  rw [← hfragments, ← hcache, ← hmfs] at hhit
  unfold retireFragment
  split
  · exact .ok _
  · next e he =>
      rw [RingBuffer.first?_eq_head?] at he
      have hne : r.1.fragmentFifo.toList ≠ [] := by
        intro hnil
        rw [hnil] at he
        cases he
      refine .ite (fun _ => .ok _) fun hroom => .ite (fun hmiss => ?_) fun hmiss => ?_
      · obtain ⟨l, hl⟩ := List.head?_eq_some_iff.1 he
        obtain ⟨r₀, rest, hrob, hrequest, hindex⟩ := hordered.rob_of_miss hl hmiss
        have hnum : 0 < r.1.rob.num := by
          rw [← r.1.rob.length_toList, hrob]
          exact Nat.succ_pos _
        have hpeek : fifoPeek r.1.rob r.1.rob.tail = .ok r₀ := by
          rw [← r.1.rob.slot_zero (hnum.trans_le r.1.rob.num_le)]
          refine fifoPeek_slot ?_
          rw [hrob, List.getElem?_cons_zero]
        unfold retireMiss
        rw [hpeek]
        refine .bind (.ok _) fun r' hr' => ?_
        cases hr'
        refine .bind (assertThat_only fun hn => absurd hrequest hn) fun _ _ =>
          .ite (fun _ => ?_) fun _ => .ok _
        refine .bind (assertThat_only fun hn => absurd hindex hn) fun _ _ =>
          .bind (fifoPush_only (by simpa using hroom) _) fun _ _ =>
            .bind (fifoPop_only (by rw [hrob]; simp)) fun _ _ =>
              .bind (fifoPop_only hne) fun _ _ => .ok _
      · obtain ⟨hinvalid, hblock⟩ := hhit e he (by simpa using hmiss)
        exact .bind (assertThat_only fun hn => hinvalid (by simpa using hn)) fun _ _ =>
          .bind (assertThat_only hblock) fun _ _ =>
            .bind (fifoPush_only (by simpa using hroom) _) fun _ _ =>
              .bind (fifoPop_only hne) fun _ _ => .ok _

end Only

end TexCache

/-! ### Runs -/

/-- The request that an observed call has accepted. -/
def TexObs.accepted : TexObs → Option Token
  | .access mf status => if status = .reservationFail then none else some mf
  | _ => none

/-- The request that an observed call has returned. -/
def TexObs.returned : TexObs → Option Token
  | .nextAccess mf => some mf
  | _ => none

/-- The assertions of the FIFOs. -/
def Abort.ofFifo : Abort → Bool
  | .fifoPushFull | .fifoPopEmpty | .fifoPeekIndex | .fifoPeekUnwritten => true
  | _ => false

namespace TexSystem

open Raises

variable {sys sys' : TexSystem cfg} {o : TexOp} {b : TexObs}

/-- The invariant of the FIFOs, for a system. -/
abbrev Ordered (sys : TexSystem cfg) : Prop := sys.cache.Ordered sys.below

theorem Ordered.build (h : sys.Ordered) {n : ℕ} (hn : .caller n ∉ sys.inFlight) (m : MemFetch) :
    (sys.build n m).Ordered sys.below := by
  refine TexCache.Ordered.of_mfs h fun t ht => ?_
  have hne : t ≠ .caller n := fun heq => hn (heq ▸ ht)
  rw [Function.update_of_ne hne]

/-- **No step breaks the order.** -/
theorem Ordered.step (h : sys.Ordered) (hpromise : sys.Promise o)
    (hstep : sys.perform o = .ok (sys', b)) : sys'.Ordered := by
  cases o with
  | access n m time events =>
      obtain ⟨⟨c, status, events'⟩, haccess, hstep⟩ := bind_eq_ok.1 hstep
      cases hstep
      have hm : (sys.build n m).mfs (.caller n) = m := by simp [TexSystem.build]
      exact (h.build hpromise m).access hpromise (by rw [hm]) (TexCache.accessed_of_access haccess)
  | cycle memportFull =>
      obtain ⟨⟨c, pushed⟩, hcycle, hstep⟩ := bind_eq_ok.1 hstep
      cases hstep
      exact TexCache.Ordered.cycle h hcycle
  | fill mf time =>
      obtain ⟨c, hfill, hstep⟩ := bind_eq_ok.1 hstep
      cases hstep
      rw [TexCache.fill, if_neg hpromise.1] at hfill
      exact TexCache.Ordered.fillComplete h hpromise.2 hfill
  | fillChild n m time =>
      obtain ⟨c, hfill, hstep⟩ := bind_eq_ok.1 hstep
      obtain ⟨hsector, hnew, original, horiginal, hbelow⟩ := hpromise
      rw [Option.mem_def] at horiginal
      have hm : ((sys.build n m).mfs (.caller n)).originalMf = some original := by
        simp [TexSystem.build, horiginal]
      have hbuilt : (sys.build n m).Ordered sys.below := h.build hnew m
      obtain ⟨e, he⟩ := Option.isSome_iff_exists.1
        ((hbuilt.sent original).1 (List.mem_append_right _ hbelow))
      rw [horiginal] at hstep
      cases hstep
      rw [TexCache.fill, if_pos hsector, hm] at hfill
      dsimp only at hfill
      rw [he] at hfill
      dsimp only at hfill
      have hpending := hbuilt.withPending he (e.pendingRead - 1)
      split at hfill
      · cases hfill
        rw [if_neg (by simp [completed])]
        exact hpending
      · obtain ⟨e', -, hc⟩ := TexCache.fillComplete_eq_ok hfill
        have hdone : completed c original = true := by
          rw [completed, hc]
          simp
        rw [if_pos hdone]
        exact hpending.fillComplete hbelow hfill
  | nextAccess =>
      obtain ⟨⟨c, mf⟩, hnext, hstep⟩ := bind_eq_ok.1 hstep
      obtain ⟨⟨resultFifo, mf'⟩, hpop, hnext⟩ := bind_eq_ok.1 hnext
      cases hnext
      cases hstep
      have hnodup := h.nodup
      rw [(fifoPop_eq_ok hpop).1, List.cons_append, List.nodup_cons] at hnodup
      exact ⟨hnodup.2, h.rob, h.block, h.sent_nodup, h.sent, h.waits⟩
  | invalidate =>
      cases hstep
      exact ⟨h.nodup, h.rob, h.block, h.sent_nodup, h.sent, h.waits⟩

/-- **What comes in goes out in order**: a step appends the request it accepts to the requests in
flight, and takes the request it returns from their front. -/
theorem inFlight_step (hstep : sys.perform o = .ok (sys', b)) :
    sys.inFlight ++ b.accepted.toList = b.returned.toList ++ sys'.inFlight := by
  have hfilled : ∀ {c c' : TexCache cfg} {mf : Token} {time : Time}, c.fill mf time = .ok c' →
      c'.resultFifo = c.resultFifo ∧ c'.fragmentFifo = c.fragmentFifo := by
    intro c c' mf time hfill
    unfold TexCache.fill at hfill
    split at hfill
    · split at hfill
      · cases hfill
      · split at hfill
        · cases hfill
        · dsimp only at hfill
          split at hfill
          · cases hfill
            exact ⟨rfl, rfl⟩
          · obtain ⟨e, -, rfl⟩ := TexCache.fillComplete_eq_ok hfill
            exact ⟨rfl, rfl⟩
    · obtain ⟨e, -, rfl⟩ := TexCache.fillComplete_eq_ok hfill
      exact ⟨rfl, rfl⟩
  cases o with
  | access n m time events =>
      obtain ⟨⟨c, status, events'⟩, haccess, hstep⟩ := bind_eq_ok.1 hstep
      cases hstep
      cases TexCache.accessed_of_access haccess with
      | refused => exact List.append_nil _
      | hit _ _ _ _ _ _ _ _ hfragments hothers =>
          rw [inFlight, inFlight, hfragments, hothers.2.2.2.2.1]
          simp [TexObs.accepted, TexObs.returned, TexSystem.build]
      | miss _ _ _ _ _ _ _ hfragments _ _ _ _ _ hothers =>
          rw [inFlight, inFlight, hfragments, hothers.2]
          simp [TexObs.accepted, TexObs.returned, TexSystem.build]
  | cycle memportFull =>
      obtain ⟨⟨c, pushed⟩, hcycle, hstep⟩ := bind_eq_ok.1 hstep
      cases hstep
      obtain ⟨⟨c₁, pushed₁⟩, hsend, hcycle⟩ := bind_eq_ok.1 hcycle
      obtain ⟨c₂, hretire, hcycle⟩ := bind_eq_ok.1 hcycle
      cases hcycle
      obtain ⟨-, -, hfragments, -, -, hresults, -, -⟩ := TexCache.sendToMemory_eq_ok hsend
      have hsame : sys.inFlight =
          c₁.resultFifo.toList ++ c₁.fragmentFifo.toList.map FragmentEntry.request := by
        rw [inFlight, hfragments, hresults]
      rw [hsame]
      cases TexCache.retired_of_retireFragment hretire with
      | waits => exact List.append_nil _
      | miss _ e r _ _ _ _ hfragments' _ _ hresults' =>
          rw [inFlight, hresults', hfragments', List.map_cons, List.append_assoc]
          simp [TexObs.accepted, TexObs.returned]
      | hit _ e _ hfragments' hresults' =>
          rw [inFlight, hresults', hfragments', List.map_cons, List.append_assoc]
          simp [TexObs.accepted, TexObs.returned]
  | fill mf time =>
      obtain ⟨c, hfill, hstep⟩ := bind_eq_ok.1 hstep
      cases hstep
      rw [inFlight, inFlight, (hfilled hfill).1, (hfilled hfill).2]
      exact List.append_nil _
  | fillChild n m time =>
      obtain ⟨c, hfill, hstep⟩ := bind_eq_ok.1 hstep
      split at hstep
      · cases hstep
      · cases hstep
        rw [inFlight, inFlight, (hfilled hfill).1, (hfilled hfill).2]
        exact List.append_nil _
  | nextAccess =>
      obtain ⟨⟨c, mf⟩, hnext, hstep⟩ := bind_eq_ok.1 hstep
      obtain ⟨⟨resultFifo, mf'⟩, hpop, hnext⟩ := bind_eq_ok.1 hnext
      cases hnext
      cases hstep
      rw [inFlight, inFlight, (fifoPop_eq_ok hpop).1]
      exact List.append_nil _
  | invalidate =>
      cases hstep
      exact List.append_nil _

/-- Every accepted request has been returned or is in flight, in the order of the accesses. -/
theorem accepted_eq {mfs : Token → MemFetch} {trace : List TexObs}
    {promise : TexSystem cfg → TexOp → Prop} (h : Run promise (init cfg mfs) trace sys) :
    trace.filterMap TexObs.accepted = trace.filterMap TexObs.returned ++ sys.inFlight := by
  refine h.invariant (fun trace s =>
    trace.filterMap TexObs.accepted = trace.filterMap TexObs.returned ++ s.inFlight) rfl ?_
  intro trace s o s' b hold _ hstep
  have hone : ∀ f : TexObs → Option Token, List.filterMap f [b] = (f b).toList := by
    intro f
    cases hf : f b <;> simp [hf]
  rw [List.filterMap_append, List.filterMap_append, hone, hone, hold, List.append_assoc,
    inFlight_step hstep, List.append_assoc]

/-- A call fails where an access does, or on the data of a hit: the other assertions hold. -/
theorem Ordered.perform_only_of {P : Abort → Prop} (h : sys.Ordered) (hpromise : sys.Promise o)
    (haccess : ∀ n m time events, o = .access n m time events →
      Only P ((sys.build n m).access m.addr (.caller n) time events))
    (hhit : ∀ e, sys.cache.fragmentFifo.toList.head? = some e → e.miss = false →
      ((sys.cache.cache e.cacheIndex).valid = false → P .texCycleHitInvalid) ∧
        ((sys.cache.cache e.cacheIndex).blockAddr ≠
          cfg.blockAddr (sys.cache.mfs e.request).addr → P .texCycleHitBlock)) :
    Only P (sys.perform o) := by
  cases o with
  | access n m time events => exact .bind (haccess n m time events rfl) fun _ _ => .ok _
  | cycle memportFull =>
      exact .bind (TexCache.cycle_only h memportFull hhit) fun _ _ => .ok _
  | fill mf time =>
      refine .bind ?_ fun _ _ => .ok _
      rw [TexCache.fill, if_neg hpromise.1]
      obtain ⟨c', hc'⟩ := TexCache.Ordered.fillComplete_ok h hpromise.2 time
      rw [hc']
      exact .ok _
  | fillChild n m time =>
      obtain ⟨hsector, hnew, original, horiginal, hbelow⟩ := hpromise
      rw [Option.mem_def] at horiginal
      have hm : ((sys.build n m).mfs (.caller n)).originalMf = some original := by
        simp [TexSystem.build, horiginal]
      have hbuilt : (sys.build n m).Ordered sys.below := h.build hnew m
      obtain ⟨e, he⟩ := Option.isSome_iff_exists.1
        ((hbuilt.sent original).1 (List.mem_append_right _ hbelow))
      refine .bind ?_ fun _ _ => by rw [horiginal]; exact .ok _
      rw [TexCache.fill, if_pos hsector, hm]
      dsimp only
      rw [he]
      refine .ite (fun _ => .ok _) fun _ => ?_
      obtain ⟨c', hc'⟩ := (hbuilt.withPending he (e.pendingRead - 1)).fillComplete_ok hbelow time
      rw [hc']
      exact .ok _
  | nextAccess =>
      refine .bind (.bind (TexCache.fifoPop_only fun hnil => ?_) fun _ _ => .ok _) fun _ _ => .ok _
      have hready : sys.cache.accessReady = true := hpromise
      rw [TexCache.accessReady, RingBuffer.isEmpty,
        decide_eq_true (sys.cache.resultFifo.toList_eq_nil.1 hnil)] at hready
      cases hready
  | invalidate => exact .ok _

/-- **No call fails on a FIFO.** -/
theorem Ordered.perform_only (h : sys.Ordered) (hpromise : sys.Promise o) :
    Only (fun e => e.ofFifo = false) (sys.perform o) := by
  have hP : ∀ e : Abort, e.plain = true → e.ofFifo = false := by
    intro e he
    cases e <;> first | rfl | cases he
  refine h.perform_only_of hpromise (fun n m time events _ => ?_) fun _ _ _ =>
    ⟨fun _ => rfl, fun _ => rfl⟩
  refine TexCache.access_only (P := fun e => e.ofFifo = false) (fun _ => rfl) ?_ ?_ events
  · exact .bind (TagArray.access_only_of_probe hP
      (TagArray.probe_only hP rfl _ _ _ _ _) (fun _ _ _ => Or.inr rfl) time) fun _ _ =>
        .bind (assertThat_only fun _ => rfl) fun _ _ => .ok _
  · exact fun tags r _ => ⟨fun _ => rfl, fun _ => rfl, TagArray.fillIndex_only hP _ _ _⟩

end TexSystem

/-- **A texture cache returns every accepted request once, in the order of the accesses**, whatever
the order in which memory answers.  The requests that were accepted and not yet returned are
different, and each of them is in the result FIFO or in the fragment FIFO; the reorder buffer holds
the misses of the fragment FIFO in the same order; the four FIFOs keep their capacities, and no call
pushes to a full one or pops an empty one; and a refused access changes nothing. -/
theorem texture_completes_in_order {mfs : Token → MemFetch} {trace : List TexObs}
    {sys : TexSystem cfg} (h : TexSystem.Run TexSystem.Promise (TexSystem.init cfg mfs) trace sys) :
    trace.filterMap TexObs.returned <+: trace.filterMap TexObs.accepted ∧
      trace.filterMap TexObs.accepted = trace.filterMap TexObs.returned ++
        (sys.cache.resultFifo.toList ++
          sys.cache.fragmentFifo.toList.map FragmentEntry.request) ∧
      (sys.cache.resultFifo.toList ++
        sys.cache.fragmentFifo.toList.map FragmentEntry.request).Nodup ∧
      sys.cache.rob.toList.map (fun r => (r.request, r.index)) =
        (sys.cache.fragmentFifo.toList.filter FragmentEntry.miss).map
          (fun e => (e.request, e.cacheIndex)) ∧
      (sys.cache.fragmentFifo.toList.length ≤ cfg.mshrEntries ∧
        sys.cache.requestFifo.toList.length ≤ cfg.mshrMaxMerge ∧
        sys.cache.rob.toList.length ≤ cfg.missQueueSize ∧
        sys.cache.resultFifo.toList.length ≤ cfg.resultFifoEntries) ∧
      (∀ o, sys.Promise o → ∀ e, e.ofFifo = true → sys.perform o ≠ .error e) ∧
      ∀ n m time events sys', sys.perform (.access n m time events) =
        .ok (sys', .access (.caller n) .reservationFail) → sys' = ⟨sys.build n m, sys.below⟩ := by
  have hordered : sys.Ordered := by
    refine h.state_invariant TexSystem.Ordered (TexCache.Ordered.init mfs) ?_
    intro s o s' b hs hpromise hstep
    exact hs.step hpromise hstep
  have haccepted := TexSystem.accepted_eq h
  refine ⟨⟨sys.inFlight, haccepted.symm⟩, haccepted, hordered.nodup, hordered.rob,
    ⟨RingBuffer.toList_length_le _, RingBuffer.toList_length_le _, RingBuffer.toList_length_le _,
      RingBuffer.toList_length_le _⟩, ?_, ?_⟩
  · intro o hpromise e he herr
    exact Bool.false_ne_true ((hordered.perform_only hpromise e herr).symm.trans he)
  · intro n m time events sys' hstep
    obtain ⟨⟨c, status, events'⟩, haccess, hstep⟩ := bind_eq_ok.1 hstep
    cases hstep
    obtain ⟨rfl, -⟩ := TexCache.access_refused haccess
    rfl

/-- A hit behind two misses, which memory answers in the other order: the three requests are
returned in the order of the accesses. -/
theorem texture_completes_in_order_out_of_order_fills :
    ∃ trace sys, TexSystem.Run TexSystem.Promise
      (TexSystem.init (CacheConfig.smallTexture 'N' 'm' 'F' 2) fun _ => MemFetch.load 0) trace sys ∧
      trace.filterMap TexObs.accepted = [.caller 0, .caller 1, .caller 2] ∧
      trace.filterMap TexObs.returned = [.caller 0, .caller 1] ∧
      trace.filterMap TexObs.returned <+: trace.filterMap TexObs.accepted := by
  obtain ⟨trace, sys, hrun, haccepted, hreturned⟩ :
      ∃ trace sys, TexSystem.Run TexSystem.Promise
        (TexSystem.init (CacheConfig.smallTexture 'N' 'm' 'F' 2) fun _ => MemFetch.load 0)
          trace sys ∧
        trace.filterMap TexObs.accepted = [.caller 0, .caller 1, .caller 2] ∧
        trace.filterMap TexObs.returned = [.caller 0, .caller 1] :=
    Runs.exists_run_of_exec [.access 0 (MemFetch.load 0) 0 [], .access 1 (MemFetch.load 32) 1 [],
      .access 2 (MemFetch.load 128) 2 [], .cycle false, .cycle false, .fill (.caller 2) 3,
      .fill (.caller 0) 4, .cycle false, .cycle false, .cycle false, .nextAccess, .nextAccess]
      (by decide)
  exact ⟨trace, sys, hrun, haccepted, hreturned, (texture_completes_in_order hrun).1⟩

end OpenCache
