import ChunkStream.Proofs.Streaming.Centers
import ChunkStream.Proofs.Streaming.Evictable
import ChunkStream.Proofs.Work.Arrival

/-!
# States that differ in order

Chunks, claims, announcements, regions and the reports of a region are kept
under keys, and nothing is promised about the order in which they are gone
through.  Two states are alike when they have the same of all these.  Their
journals may differ in who was told first, but every listener has heard of
readiness in the same order and has had the same reports taken back, and all
other entries are in the same order.
-/

namespace ChunkStream

/-! ## Callbacks -/

def Callback.isReady : Callback → Bool
  | .ready _ => true
  | .irrelevant _ => false

/-- Readiness is reported in the same order, and the same reports are taken
back. -/
structure Callback.Alike (cbs cbs' : List Callback) : Prop where
  perm : cbs'.Perm cbs
  ready : cbs'.filter isReady = cbs.filter isReady

namespace Callback.Alike

variable {as bs cs ds : List Callback}

protected theorem refl (cbs : List Callback) : Alike cbs cbs := ⟨.refl _, rfl⟩

protected theorem symm (h : Alike as bs) : Alike bs as :=
  ⟨h.perm.symm, h.ready.symm⟩

protected theorem trans (h : Alike as bs) (h' : Alike bs cs) : Alike as cs :=
  ⟨h'.perm.trans h.perm, h'.ready.trans h.ready⟩

theorem append (h : Alike as bs) (h' : Alike cs ds) :
    Alike (as ++ cs) (bs ++ ds) where
  perm := h.perm.append h'.perm
  ready := by rw [List.filter_append, List.filter_append, h.ready, h'.ready]

theorem reverse (h : Alike as bs) : Alike as.reverse bs.reverse where
  perm := (bs.reverse_perm.trans h.perm).trans as.reverse_perm.symm
  ready := by rw [List.filter_reverse, List.filter_reverse, h.ready]

theorem irrelevant {cs ds : List Coord} (h : ds.Perm cs) :
    Alike (cs.map .irrelevant) (ds.map .irrelevant) where
  perm := h.map _
  ready := by simp [List.filter_map, Function.comp_def, isReady]

end Callback.Alike

/-! ## Regions -/

namespace Interest.Alike

/-- An operation that makes alike regions alike, with alike callbacks. -/
def Respected (f : Interest → Interest × List Callback) : Prop :=
  ∀ i j, Alike i j → Alike (f i).1 (f j).1 ∧ Callback.Alike (f i).2 (f j).2

theorem reshape : Respected Interest.reshape := by
  intro i j h
  unfold Interest.reshape
  simp only [h.center, h.distance, h.box]
  split
  · exact ⟨h, .refl _⟩
  · exact ⟨⟨h.observer, h.listening, rfl, rfl, rfl, h.relevant.filter _, rfl⟩,
      .irrelevant (h.relevant.filter _)⟩

theorem follow (position : Option Coord) :
    Respected (Interest.follow position) := by
  intro i j h
  cases position with
  | none => exact ⟨{ h with dirty := rfl }, .refl _⟩
  | some c =>
    simp only [Interest.follow, h.center]
    split
    · exact ⟨h, .refl _⟩
    · exact reshape _ _ { h with center := rfl }

theorem chunkReady (c : Coord) : Respected (Interest.chunkReady c) := by
  intro i j h
  unfold Interest.chunkReady
  simp only [h.box, h.relevant.mem_iff]
  split
  · exact ⟨⟨h.observer, h.listening, h.center, h.distance, rfl,
      h.relevant.cons c, h.dirty⟩, .refl _⟩
  · exact ⟨h, .refl _⟩

theorem chunkUnloaded (c : Coord) : Respected (Interest.chunkUnloaded c) := by
  intro i j h
  unfold Interest.chunkUnloaded
  simp only [h.relevant.mem_iff]
  split
  · exact ⟨{ h with relevant := h.relevant.erase c }, .refl _⟩
  · exact ⟨h, .refl _⟩

end Interest.Alike

/-- Each region is under the number of its observer. -/
def Regions.Named (rs : Table ObserverId Interest) : Prop :=
  ∀ k i, Table.get? rs k = some i → i.observer = k

/-! ## Journals -/

namespace JournalEntry

/-- The entry is a callback. -/
def isTold : JournalEntry → Bool
  | .told .. => true
  | _ => false

/-- What an entry tells an observer. -/
def toldTo? (id : ObserverId) : JournalEntry → Option Callback
  | .told k cb => if k = id then some cb else none
  | _ => none

/-- What an observer has been told, in the order of the entries. -/
def heardBy (id : ObserverId) (js : List JournalEntry) : List Callback :=
  js.filterMap (toldTo? id)

/-- Every observer has heard alike, and all else is in the same order. -/
structure Alike (js ks : List JournalEntry) : Prop where
  heard : ∀ id, Callback.Alike (heardBy id js) (heardBy id ks)
  others : ks.filter (!·.isTold) = js.filter (!·.isTold)

namespace Alike

variable {js ks ls ms : List JournalEntry}

protected theorem refl (js : List JournalEntry) : Alike js js :=
  ⟨fun _ => .refl _, rfl⟩

protected theorem symm (h : Alike js ks) : Alike ks js :=
  ⟨fun id => (h.heard id).symm, h.others.symm⟩

protected theorem trans (h : Alike js ks) (h' : Alike ks ls) : Alike js ls :=
  ⟨fun id => (h.heard id).trans (h'.heard id), h'.others.trans h.others⟩

theorem append (h : Alike js ks) (h' : Alike ls ms) :
    Alike (js ++ ls) (ks ++ ms) where
  heard id := by
    rw [heardBy, heardBy, List.filterMap_append, List.filterMap_append]
    exact (h.heard id).append (h'.heard id)
  others := by
    rw [List.filter_append, List.filter_append, h.others, h'.others]

theorem reverse (h : Alike js ks) : Alike js.reverse ks.reverse where
  heard id := by
    rw [heardBy, heardBy, List.filterMap_reverse, List.filterMap_reverse]
    exact (h.heard id).reverse
  others := by rw [List.filter_reverse, List.filter_reverse, h.others]

end Alike

end JournalEntry

/-! ## States -/

variable {σ : Type}

/-- The states differ at most in the order of what is kept under keys. -/
structure StreamState.Alike (s t : StreamState σ) : Prop where
  near : t.near.Perm s.near
  departed : t.departed = s.departed
  preparing : t.preparing.Perm s.preparing
  announced : t.announced.Perm s.announced
  signals : t.signals = s.signals
  regions : Regions.Alike s.regions t.regions
  centers : t.centers = s.centers
  epoch : t.epoch = s.epoch
  nextAge : t.nextAge = s.nextAge
  far : t.far = s.far
  journal : JournalEntry.Alike s.journal t.journal

/-- The providers have alike states and queues, and are equal otherwise. -/
structure Provider.Alike (p q : Provider σ) : Prop where
  frame : q = { p with pipeline := { p.pipeline with
    state := q.state
    queue := q.pipeline.queue } }
  state : p.state.Alike q.state
  queue : p.pipeline.queue.Alike q.pipeline.queue

/-- Coordinates, ages and observers are distinct, and each region is under the
number of its observer. -/
structure StreamState.Keyed (s : StreamState σ) : Prop where
  coords : (Table.keys s.near).Nodup
  ages : ((Table.values s.near).map (·.age)).Nodup
  observers : (Table.keys s.regions).Nodup
  named : Regions.Named s.regions

namespace StreamState

variable {s t u : StreamState σ}

namespace Alike

protected theorem refl (s : StreamState σ) : Alike s s :=
  ⟨.refl _, rfl, .refl _, .refl _, rfl, .refl _, rfl, rfl, rfl, rfl, .refl _⟩

protected theorem symm (h : Alike s t) : Alike t s :=
  ⟨h.near.symm, h.departed.symm, h.preparing.symm, h.announced.symm,
    h.signals.symm, h.regions.symm, h.centers.symm, h.epoch.symm,
    h.nextAge.symm, h.far.symm, h.journal.symm⟩

protected theorem trans (h : Alike s t) (h' : Alike t u) : Alike s u :=
  ⟨h'.near.trans h.near, h'.departed.trans h.departed,
    h'.preparing.trans h.preparing, h'.announced.trans h.announced,
    h'.signals.trans h.signals, h.regions.trans h'.regions,
    h'.centers.trans h.centers, h'.epoch.trans h.epoch,
    h'.nextAge.trans h.nextAge, h'.far.trans h.far,
    h.journal.trans h'.journal⟩

theorem keyed (h : Alike s t) (hs : s.Keyed) : t.Keyed where
  coords := (h.near.map _).nodup_iff.2 hs.coords
  ages := ((h.near.map Prod.snd).map _).nodup_iff.2 hs.ages
  observers := h.regions.keys.nodup_iff.2 hs.observers
  named k j hj := by
    rcases h.regions.region_cases k with ⟨-, hnone⟩ | ⟨i, j', hi, hj', hij⟩
    · rw [hj] at hnone
      cases hnone
    · rw [hj, Option.some.injEq] at hj'
      subst hj'
      exact hij.observer.trans (hs.named k i hi)

theorem resident? (h : Alike s t) (hs : s.Keyed) :
    t.resident? = s.resident? :=
  funext (Table.get?_of_perm h.near hs.coords)

theorem isResident (h : Alike s t) (hs : s.Keyed) :
    t.isResident = s.isResident := by
  funext c
  rw [StreamState.isResident, h.resident? hs, StreamState.isResident]

theorem isReady (h : Alike s t) (hs : s.Keyed) : t.isReady = s.isReady := by
  have hcomplete : t.isResidentComplete = s.isResidentComplete := by
    funext c
    rw [isResidentComplete, h.resident? hs, isResidentComplete]
  funext c
  rw [StreamState.isReady, hcomplete, StreamState.isReady]

theorem lacks (h : Alike s t) (hs : s.Keyed) : t.lacks = s.lacks := by
  funext c
  rw [StreamState.lacks, h.isResident hs, StreamState.lacks,
    decide_eq_decide.2 (not_congr h.preparing.mem_iff)]

theorem isRetained (h : Alike s t) (hs : s.Keyed) :
    t.isRetained = s.isRetained := by
  funext c
  have hperm := h.regions.map_values hs.observers
    (f := fun i => i.expandedContains .retention c) fun i j hij => by
      rw [Interest.expandedContains, hij.expanded, Interest.expandedContains]
  have hany := hperm.any_eq (f := id)
  rw [List.any_map, List.any_map] at hany
  exact hany

end Alike

end StreamState

end ChunkStream
