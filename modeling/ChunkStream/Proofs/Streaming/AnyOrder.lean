import Mathlib
import ChunkStream.Proofs.Streaming.Rounds

/-!
# An update in any order

After the observers have been followed, an update goes by lists: the centers are
sorted, the signals are drained one by one, and the sweep takes its candidates
by age, which no two of them share.  So none of its stages lets the order show
in which chunks and regions happen to be kept, and an update of alike providers
leaves them alike.
-/

namespace ChunkStream

variable {σ : Type} {setup : Setup σ} {p q : Provider σ} {c : Coord}

namespace StreamState

variable {s t : StreamState σ}

/-! ## The stages of an update -/

theorem Keyed.of_same (hs : s.Keyed) (hnear : t.near = s.near)
    (hregions : t.regions = s.regions) : t.Keyed :=
  ⟨hnear ▸ hs.coords, hnear ▸ hs.ages, hregions ▸ hs.observers,
    hregions ▸ hs.named⟩

theorem Keyed.of_swept {gone : List Coord} (hs : s.Keyed)
    (h : Swept setup gone s t) : t.Keyed where
  coords := by
    rw [h.near]
    exact hs.coords.sublist (List.filter_sublist.map _)
  ages := by
    rw [h.near]
    exact hs.ages.sublist ((List.filter_sublist.map _).map _)
  observers := h.regions ▸ hs.observers
  named := h.regions ▸ hs.named

namespace Alike

theorem record (h : Alike s t) (e : JournalEntry) :
    Alike (s.record e) (t.record e) :=
  { h with journal := (JournalEntry.Alike.refl [e]).append h.journal }

/-- What alike states go through together. -/
theorem foldl {α : Type} {f : StreamState σ → α → StreamState σ}
    (hf : ∀ s t a, s.Keyed → Alike s t → (f s a).Keyed ∧ Alike (f s a) (f t a))
    (as : List α) (hs : s.Keyed) (h : Alike s t) :
    (as.foldl f s).Keyed ∧ Alike (as.foldl f s) (as.foldl f t) := by
  induction as generalizing s t with
  | nil => exact ⟨hs, h⟩
  | cons a as ih =>
    obtain ⟨hs', h'⟩ := hf s t a hs h
    exact ih hs' h'

theorem publishCenters (h : Alike s t) (hs : s.Keyed) :
    Alike s.publishCenters t.publishCenters := by
  have hseats := h.regions.map_values hs.observers
    fun i j hij => hij.center
  have hsorted := Coord.sorted_of_perm hseats
  unfold StreamState.publishCenters
  simp only [hsorted, h.centers, h.epoch]
  split
  · exact h
  · exact { h with centers := rfl, epoch := rfl }

theorem publishReady (h : Alike s t) (hs : s.Keyed) (c : Coord) :
    (Provider.publishReady c s).Keyed
      ∧ Alike (Provider.publishReady c s) (Provider.publishReady c t) := by
  have hsent := h.record (.sent (.ready c))
  have hs' : (s.record (.sent (.ready c))).Keyed := hs.of_same rfl rfl
  unfold Provider.publishReady
  simp only [hsent.isResident hs']
  split
  · exact ⟨hs'.updateRegions (Interest.keepsObserver_chunkReady c),
      hsent.updateRegions hs' (Interest.keepsObserver_chunkReady c)
        (Interest.Alike.chunkReady c)⟩
  · exact ⟨hs', hsent⟩

theorem drainSignals (h : Alike s t) (hs : s.Keyed) :
    (Provider.drainSignals s).Keyed
      ∧ Alike (Provider.drainSignals s) (Provider.drainSignals t) := by
  have hnone : Alike { s with signals := [] } { t with signals := [] } :=
    { h with signals := rfl }
  have hs' : ({ s with signals := [] } : StreamState σ).Keyed :=
    hs.of_same rfl rfl
  unfold Provider.drainSignals
  rw [h.signals]
  exact foldl (fun s t c hs h => h.publishReady hs c) _ hs' hnone

/-! ## The sweep -/

theorem dismiss (h : Alike s t) (hs : s.Keyed) (c : Coord) :
    Alike (s.dismiss c) (t.dismiss c) := by
  unfold StreamState.dismiss
  rw [h.resident? hs]
  cases s.resident? c with
  | none => exact h
  | some r =>
    exact { h with near := h.near.filter _, departed := by rw [h.departed] }

theorem evict (h : Alike s t) (hs : s.Keyed) (setup : Setup σ) (c : Coord) :
    (Eviction.evict setup c t).1 = (Eviction.evict setup c s).1
      ∧ Alike (Eviction.evict setup c s).2 (Eviction.evict setup c t).2 := by
  have hchunk : t.chunk? c = s.chunk? c := by
    rw [chunk?, h.resident? hs, chunk?]
  unfold Eviction.evict
  rw [hchunk]
  cases s.chunk? c with
  | none => exact ⟨rfl, h⟩
  | some chunk =>
    simp only
    cases chunk.locked with
    | true => exact ⟨rfl, h.record _⟩
    | false =>
      have hcalled := h.record (.called (.put chunk.coord))
      have hfar : (t.record (.called (.put chunk.coord))).far
          = (s.record (.called (.put chunk.coord))).far := h.far
      simp only [Bool.false_eq_true, if_false, hfar]
      cases setup.tier.put chunk
          (s.record (.called (.put chunk.coord))).far with
      | error cause => exact ⟨rfl, hcalled.record _⟩
      | ok far =>
        have hput : Alike
            { s.record (.called (.put chunk.coord)) with far := far }
            { t.record (.called (.put chunk.coord)) with far := far } :=
          { hcalled with far := rfl }
        have hgone := hput.dismiss (hs.of_same rfl rfl) c
        refine ⟨rfl, StreamState.Alike.record ?_ _⟩
        exact { hgone with announced := hgone.announced.erase c }

theorem keyed_evict (hs : s.Keyed) (setup : Setup σ) (c : Coord) :
    (Eviction.evict setup c s).2.Keyed := by
  rcases Eviction.evict_cases setup c s with
    ⟨u, hnote, hevict⟩ | ⟨u, chunk, -, -, hswept, hevict⟩
  · rw [hevict, hnote.frame]
    exact hs.of_same rfl rfl
  · rw [hevict]
    exact hs.of_swept hswept

theorem evictUpTo (h : Alike s t) (hs : s.Keyed) (setup : Setup σ) (n : Nat)
    (cs : List Coord) :
    (Eviction.evictUpTo setup n cs t).1 = (Eviction.evictUpTo setup n cs s).1
      ∧ Alike (Eviction.evictUpTo setup n cs s).2
        (Eviction.evictUpTo setup n cs t).2 := by
  induction cs generalizing n s t with
  | nil => cases n <;> exact ⟨rfl, h⟩
  | cons c cs ih =>
    cases n with
    | zero => exact ⟨rfl, h⟩
    | succ n =>
      obtain ⟨hsame, hnext⟩ := h.evict hs setup c
      have hkeyed := keyed_evict hs setup c
      simp only [Eviction.evictUpTo]
      revert hsame hnext hkeyed
      rcases Eviction.evict setup c s with ⟨gone, s'⟩
      rcases Eviction.evict setup c t with ⟨gone', t'⟩
      rintro rfl hnext hkeyed
      cases gone' with
      | false => exact ih hnext hkeyed (n + 1)
      | true =>
        obtain ⟨hrest, hlast⟩ := ih hnext hkeyed n
        exact ⟨congrArg (c :: ·) hrest, hlast⟩

/-- Sorting by ages that differ hides the order from before. -/
theorem unretained (h : Alike s t) (hs : s.Keyed) :
    Eviction.unretained t = Eviction.unretained s := by
  have hperm : (Eviction.unretained t).Perm (Eviction.unretained s) := by
    have hfilter := h.near.filter fun e => !s.isRetained e.1
    rw [← h.isRetained hs] at hfilter
    apply (Eviction.unretained_perm t).trans
    apply hfilter.trans
    rw [h.isRetained hs]
    exact (Eviction.unretained_perm s).symm
  exact List.Perm.eq_of_pairwise
    (fun a b _ _ hab hba => absurd (Nat.lt_trans hab hba) (Nat.lt_irrefl _))
    (Eviction.pairwise_unretained (h.keyed hs).ages)
    (Eviction.pairwise_unretained hs.ages) hperm

theorem sweep (h : Alike s t) (hs : s.Keyed) (setup : Setup σ) :
    (Eviction.sweep setup t).1 = (Eviction.sweep setup s).1
      ∧ Alike (Eviction.sweep setup s).2 (Eviction.sweep setup t).2 := by
  have hlength := h.near.length_eq
  have hcandidates : Eviction.candidates t = Eviction.candidates s :=
    congrArg (List.map Prod.fst) (h.unretained hs)
  unfold Eviction.sweep
  simp only [hlength, hcandidates]
  split
  · exact ⟨rfl, h⟩
  · exact (h.record _).evictUpTo (hs.of_same rfl rfl) setup _ _

theorem notifyUnloaded (h : Alike s t) (hs : s.Keyed) (c : Coord) :
    (Eviction.notifyUnloaded c s).Keyed
      ∧ Alike (Eviction.notifyUnloaded c s) (Eviction.notifyUnloaded c t) := by
  have hkeeps := Interest.keepsObserver_chunkUnloaded c
  exact ⟨(hs.updateRegions hkeeps).of_same rfl rfl,
    (h.updateRegions hs hkeeps (Interest.Alike.chunkUnloaded c)).record _⟩

theorem compact (h : Alike s t) (hs : s.Keyed) (setup : Setup σ) :
    (Provider.compact setup s).Keyed
      ∧ Alike (Provider.compact setup s) (Provider.compact setup t) := by
  obtain ⟨hgone, hswept⟩ := h.sweep hs setup
  have hkeyed := hs.of_swept (Eviction.sweep_spec setup s).1
  rw [compact_eq, compact_eq, hgone]
  exact foldl (fun s t c hs h => h.notifyUnloaded hs c) _ hkeyed hswept

end Alike

end StreamState

/-! ## The whole update -/

namespace Provider

theorem Alike.modifyState (h : p.Alike q) {f : StreamState σ → StreamState σ}
    (hf : (f p.state).Alike (f q.state)) :
    (p.modifyState f).Alike (q.modifyState f) where
  frame := by
    rw [h.frame]
    rfl
  state := hf
  queue := h.queue

/-- An update of alike providers leaves them alike. -/
theorem Alike.update (h : p.Alike q) (hs : p.state.Keyed)
    (hclosed : p.pipeline.queue.closed = p.pipeline.stopped)
    (positions : ObserverId → Option Coord) :
    (p.update setup positions).state.Keyed
      ∧ (p.update setup positions).Alike (q.update setup positions) := by
  have hfollowed := h.followObservers setup hs hclosed positions
  have hkeyed := keyed_followObservers setup hs hclosed positions
  have hpublished := hfollowed.state.publishCenters hkeyed
  obtain ⟨hkeyed', hdrained⟩ := hpublished.drainSignals
    (hkeyed.of_same (SameStock.publishCenters _).near
      (StreamState.regions_publishCenters _))
  obtain ⟨hkeyed'', hcompacted⟩ := hdrained.compact hkeyed' setup
  exact ⟨hkeyed'', hfollowed.modifyState hcompacted⟩

end Provider

/-! ## Every provider -/

theorem StreamState.Reordered.alike {s t : StreamState σ}
    (h : s.Reordered t) : s.Alike t where
  near := h.near
  departed := by rw [h.frame]
  preparing := h.preparing
  announced := h.announced
  signals := by rw [h.frame]
  regions := h.regions
  centers := by rw [h.frame]
  epoch := by rw [h.frame]
  nextAge := by rw [h.frame]
  far := by rw [h.frame]
  journal := by
    rw [h.frame]
    exact .refl _

namespace StreamState.Keyed

variable {s t : Session σ}

theorem start {world : String} {workers : Nat} {far : σ}
    (h : Provider.start setup world workers far = .ok p) : p.state.Keyed := by
  have hp := Regular.start h
  exact ⟨hp.aged.keys, hp.aged.ages, hp.observers,
    Provider.forall_region_start h⟩

theorem next (hs : s.provider.state.Keyed) (hregular : Regular s.provider)
    (h : Session.Next setup s t) : t.provider.state.Keyed := by
  have ht := hregular.next h
  cases h with
  | cancel => exact hs
  | reorder u h => exact h.alike.keyed hs
  | act a =>
    refine ⟨ht.aged.keys, ht.aged.ages, ht.observers, ?_⟩
    by_cases hupdate : a = .update
    · subst hupdate
      have hsame : s.provider.Alike s.provider := ⟨rfl, .refl _, .refl _⟩
      exact (hsame.update hs hregular.claims.closed s.position).1.named
    by_cases hdispose : a = .dispose
    · subst hdispose
      have hregions : (s.step setup .dispose).provider.state.regions
          = s.provider.state.regions := by
        show (s.provider.dispose setup).state.regions = _
        cases hdisposed : s.provider.disposed with
        | true => rw [Provider.dispose_of_disposed hdisposed]
        | false => rw [Provider.dispose_frame hdisposed setup]
      rw [hregions]
      exact hs.named
    intro k i hi
    rcases Session.region_step hregular.claims hupdate hdispose hi with
      ⟨-, j, hj, hadjusted⟩ | ⟨-, c, d, l, -, hnew, -⟩
    · rcases hadjusted with rfl | ⟨d, rfl⟩
      · exact hs.named k _ hj
      · exact (Interest.keepsObserver_setDistance d j).1.trans
          (hs.named k j hj)
    · rw [hnew]
      exact Interest.observer_served _ _

theorem reach {world : String} {workers : Nat} {far : σ}
    (hstart : Provider.start setup world workers far = .ok p)
    (hrun : Relation.ReflTransGen (Session.Next setup) (.ofProvider p) s) :
    s.provider.state.Keyed := by
  induction hrun with
  | refl => exact start hstart
  | tail hrun hstep ih => exact ih.next (Regular.reach hstart hrun) hstep

end StreamState.Keyed

/-- Any order of the regions will do. -/
theorem StreamState.Reordered.regions_of_perm {s : StreamState σ}
    {regions : Table ObserverId Interest} (hs : s.Keyed)
    (h : regions.Perm s.regions) : s.Reordered { s with regions := regions } :=
  ⟨rfl, .refl _, .refl _, .refl _, .of_perm hs.observers h⟩

/-- An update does not depend on the order in which regions, chunks and
coordinates are kept.  From any two orders it comes to alike providers: the same
chunks and ages, the same far tier, announcements, claims and centers, alike
regions, the same events and calls in the same order, for every listener the
same readiness in the same order and the same reports taken back, and the same
tasks with the same scores. -/
theorem update_in_any_order {world : String} {workers : Nat} {far : σ}
    (hstart : Provider.start setup world workers far = .ok p) {s : Session σ}
    (hrun : Relation.ReflTransGen (Session.Next setup) (.ofProvider p) s)
    {t u : StreamState σ} (ht : s.provider.state.Reordered t)
    (hu : s.provider.state.Reordered u)
    (positions : ObserverId → Option Coord) :
    ((s.provider.modifyState fun _ => t).update setup positions).Alike
      ((s.provider.modifyState fun _ => u).update setup positions) := by
  have hs : s.provider.state.Keyed := .reach hstart hrun
  have hclaims := (Regular.reach hstart hrun).claims
  have halike : (s.provider.modifyState fun _ => t).Alike
      (s.provider.modifyState fun _ => u) :=
    ⟨rfl, ht.alike.symm.trans hu.alike, .refl _⟩
  exact (halike.update (ht.alike.keyed hs) hclaims.closed positions).2

/-- Two chunks far away are produced.  Two observers are tracked at the corner
of the world and leave in different directions. -/
def Act.partings : List Act :=
  [.requestBox ⟨.origin, ⟨1, 0, 0⟩⟩, .work, .work,
    .move 1 (some .corner), .track 1 0 true,
    .move 2 (some .corner), .track 2 0 true,
    .move 1 (some ⟨2147483645, 0, 2147483647⟩),
    .move 2 (some ⟨2147483647, 0, 2147483645⟩)]

/-- With the regions the other way round, the update queues the tasks of the
second observer first.  With the chunks the other way round, it evicts both of
them all the same. -/
theorem update_in_any_order_of_partings :
    let s := (Session.ofProvider (.plain 0)).run (Setup.plain 0) Act.partings
    let t := { s.provider.state with near := s.provider.state.near.reverse }
    let u := { s.provider.state with
      regions := s.provider.state.regions.reverse }
    let p := (s.provider.modifyState fun _ => t).update (Setup.plain 0)
      s.position
    let q := (s.provider.modifyState fun _ => u).update (Setup.plain 0)
      s.position
    p.state.departed.length = 2
      ∧ p.pipeline.queue.tasks ≠ q.pipeline.queue.tasks
      ∧ p.Alike q := by
  intro s t u p q
  have hrun := Session.reaches_run (Setup.plain 0) Act.partings
    (Session.ofProvider (.plain 0))
  have hkeyed : s.provider.state.Keyed := .reach (start_plain 0) hrun
  have halike : p.Alike q := update_in_any_order (start_plain 0) hrun
    (.chunks (List.reverse_perm _))
    (.regions_of_perm hkeyed (List.reverse_perm _)) s.position
  have hdiffer : p.state.departed.length = 2
      ∧ p.pipeline.queue.tasks ≠ q.pipeline.queue.tasks := by decide_cbv
  exact ⟨hdiffer.1, hdiffer.2, halike⟩

end ChunkStream
