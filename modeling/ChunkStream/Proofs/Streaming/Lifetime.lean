import ChunkStream.Proofs.Streaming.Teardown

/-!
# A lifetime

Claims are sound, resident chunks are told apart by their coordinates and by
their ages, and no observer is tracked twice.  That is so of a provider at every
moment, from its start to beyond its end and whatever far tier and generator it
is built on; `Regular` has the three facts together.
-/

namespace ChunkStream

variable {σ : Type} {setup : Setup σ} {p : Provider σ} {s t : Session σ}

/-- The end of a provider empties the near cache and gives all claims back.
Announcements, signals, regions and centers stay as they are. -/
theorem Provider.dispose_frame (hdisposed : p.disposed = false)
    (setup : Setup σ) :
    let s := (p.dispose setup).state
    s = { p.state with
      near := []
      departed := s.departed
      preparing := []
      far := s.far
      journal := s.journal } := by
  have hflush := flush_frame setup
    (p.pipeline.shutdown (Production.handler setup)).state
  have hshutdown := (shutdown_frame setup p).1
  cases hresult : flush setup
      (p.pipeline.shutdown (Production.handler setup)).state with
  | mk n t =>
    rw [hresult, hshutdown] at hflush
    simp only at hflush
    simp only [dispose, hdisposed, Bool.false_eq_true, if_false, hresult]
    cases setup.obstacle with
    | some cause =>
      simp only [state, StreamState.note, StreamState.record]
      rw [hflush]
      rfl
    | none =>
      simp only [state, StreamState.note, StreamState.record]
      rw [hflush]
      rfl

/-- The queue is closed at the end, unless it has been before. -/
theorem Provider.queue_dispose (p : Provider σ) (setup : Setup σ) :
    (p.dispose setup).pipeline.queue = p.pipeline.queue
      ∨ (p.dispose setup).pipeline.queue = p.pipeline.queue.close.2 := by
  have hshutdown : (p.pipeline.shutdown (Production.handler setup)).queue
        = p.pipeline.queue
      ∨ (p.pipeline.shutdown (Production.handler setup)).queue
        = p.pipeline.queue.close.2 := by
    unfold Pipeline.shutdown
    split
    · exact .inl rfl
    · exact .inr rfl
  unfold dispose
  split
  · exact .inl rfl
  · cases setup.obstacle <;> exact hshutdown

/-- What is so of a provider at every moment. -/
structure Regular (p : Provider σ) : Prop where
  claims : Claims p
  aged : WellAged p.state
  observers : (Table.keys p.state.regions).Nodup

namespace Regular

theorem start {world : String} {workers : Nat} {far : σ}
    (h : Provider.start setup world workers far = .ok p) : Regular p where
  claims := Claims.start h
  aged := .of_near_eq_nil (Provider.start_spec h).1.sameStock.near
  observers := Provider.nodup_keys_regions_start h

theorem dispose (hp : Regular p) : Regular (p.dispose setup) := by
  cases hdisposed : p.disposed with
  | true => rwa [Provider.dispose_of_disposed hdisposed]
  | false =>
    have hframe := Provider.dispose_frame hdisposed setup
    refine ⟨hp.claims.dispose, ?_, ?_⟩
    · exact .of_near_eq_nil (congrArg StreamState.near hframe)
    · rw [hframe]
      exact hp.observers

theorem step (hs : Regular s.provider) (a : Act) :
    Regular (s.step setup a).provider := by
  by_cases hdispose : a = .dispose
  · rw [hdispose]
    exact hs.dispose
  refine ⟨hs.claims.step a, hs.aged.step hs.claims hdispose, ?_⟩
  by_cases hupdate : a = .update
  · rw [hupdate]
    exact Session.nodup_keys_update hs.claims hs.observers
  · exact Session.nodup_keys_step hs.claims hs.observers hupdate hdispose

theorem next (hs : Regular s.provider) (h : Session.Next setup s t) :
    Regular t.provider := by
  have hclaims := hs.claims.of_next h
  cases h with
  | act a => exact hs.step a
  | cancel => exact ⟨hclaims, hs.aged, hs.observers⟩
  | reorder u h =>
    exact ⟨hclaims, h.wellAged hs.aged,
      h.regions.keys.nodup_iff.2 hs.observers⟩

theorem reach {world : String} {workers : Nat} {far : σ}
    (hstart : Provider.start setup world workers far = .ok p)
    (hrun : Relation.ReflTransGen (Session.Next setup) (.ofProvider p) s) :
    Regular s.provider := by
  induction hrun with
  | refl => exact start hstart
  | tail _ hstep ih => exact ih.next hstep

end Regular

end ChunkStream
