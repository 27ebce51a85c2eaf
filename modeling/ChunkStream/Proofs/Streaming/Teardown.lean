import ChunkStream.Proofs.Store.Artifact
import ChunkStream.Proofs.Streaming.Custody

/-!
# Teardown and restart

As long as a provider goes on, its far tier is open and nothing has been saved.
The end empties the near cache into the far tier, closes that and saves it.
From then on the queue is closed and the near cache is empty, so that no request
is heard, no task is left to run and no sweep finds a chunk to move.  What was
saved loads as what the closed far tier holds.
-/

namespace ChunkStream

section Undisturbed

variable {σ : Type} {setup : Setup σ} {p q r : Provider σ} {s : Session σ}
  {a : Act}

/-- The far tier and what was saved of it are as before, and after the end no
chunk has come. -/
structure Provider.Undisturbed (p q : Provider σ) : Prop where
  far : q.state.far = p.state.far
  saved : q.saved = p.saved
  disposed : q.disposed = p.disposed
  stopped : q.pipeline.stopped = p.pipeline.stopped
  near : p.pipeline.stopped = true → p.state.near = [] → q.state.near = []

namespace Provider.Undisturbed

protected theorem refl (p : Provider σ) : Undisturbed p p :=
  ⟨rfl, rfl, rfl, rfl, fun _ => id⟩

protected theorem trans (h : Undisturbed p q) (h' : Undisturbed q r) :
    Undisturbed p r where
  far := h'.far.trans h.far
  saved := h'.saved.trans h.saved
  disposed := h'.disposed.trans h.disposed
  stopped := h'.stopped.trans h.stopped
  near hstopped hnear :=
    h'.near (h.stopped.trans hstopped) (h.near hstopped hnear)

/-- Changes that keep the far tier and an empty near cache. -/
theorem modifyState {f : StreamState σ → StreamState σ}
    (hfar : (f p.state).far = p.state.far)
    (hnear : p.state.near = [] → (f p.state).near = []) :
    Undisturbed p (p.modifyState f) :=
  ⟨hfar, rfl, rfl, rfl, fun _ => hnear⟩

theorem advance (hp : Claims p) (h : Provider.Advance setup p q) :
    Undisturbed p q := by
  cases h with
  | beside h => exact modifyState h.far h.near.trans
  | request c =>
    rcases Provider.requestChunk_cases setup hp.closed c with
      ⟨-, h⟩ | ⟨-, -, -, h⟩
    · rw [h]
      exact .refl p
    · rw [h]
      exact ⟨rfl, rfl, rfl, rfl, fun _ => id⟩
  | work h =>
    have hopen := hp.opened_of_work? h
    obtain ⟨t, queue, u, completed, failed, -, hnote, rfl⟩ :=
      Provider.work?_spec h
    refine ⟨?_, rfl, rfl, rfl, ?_⟩
    · exact hnote.sameStock.far.trans
        (Production.run_frame setup p.pipeline.cancelled t p.state).2
    · intro hstopped
      rw [hopen] at hstopped
      cases hstopped

theorem advances (hp : Claims p) (h : Provider.Advances setup p q) :
    Undisturbed p q :=
  hp.preserve h (P := Undisturbed p)
    (fun _ _ hq hstep hsame => hsame.trans (advance hq hstep)) (.refl p)

/-- Only updates and the end move chunks to the far tier. -/
theorem step (hs : Claims s.provider) (hupdate : a ≠ .update)
    (hdispose : a ≠ .dispose) :
    Undisturbed s.provider (s.step setup a).provider := by
  by_cases hcall : a.isCall = true
  · exact advances hs (Session.advances_step setup hcall s)
  by_cases hhandling : a.isHandling = true
  · obtain ⟨t, ht, h⟩ := Session.handled_step setup hhandling s
    obtain ⟨g, hg, -⟩ := ht.near
    rw [h]
    refine modifyState (by rw [ht.frame]) fun hnear => ?_
    rw [hg, hnear]
    rfl
  cases a with
  | markReady c => exact modifyState rfl id
  | update => exact absurd rfl hupdate
  | dispose => exact absurd rfl hdispose
  | _ => simp [Act.isCall, Act.isHandling] at hcall hhandling

end Provider.Undisturbed

theorem Provider.disposed_start {world : String} {workers : Nat} {far : σ}
    (h : Provider.start setup world workers far = .ok p) :
    p.disposed = false ∧ p.saved = none := by
  unfold Provider.start Pipeline.start at h
  split at h
  · cases h
  · cases h
    exact ⟨rfl, rfl⟩

theorem Provider.disposed_dispose (p : Provider σ) (setup : Setup σ) :
    (p.dispose setup).disposed = true := by
  unfold Provider.dispose
  split
  · next h => exact h
  · cases setup.obstacle <;> rfl

/-- Callers bring no chunk and take none. -/
theorem Provider.Asks.near_eq (hp : Claims p) (h : Provider.Asks setup p q) :
    q.state.near = p.state.near := by
  have hboth : Claims q ∧ q.state.near = p.state.near := by
    refine h.preserve
      (P := fun q => Claims q ∧ q.state.near = p.state.near) ?_ ⟨hp, rfl⟩
    rintro r r' hstep ⟨hr, hsame⟩
    refine ⟨hr.advance hstep.advance, ?_⟩
    cases hstep with
    | beside h => exact h.near.trans hsame
    | request c =>
      have hframe := (Provider.Requested.requestChunk setup hr c).frame
      rw [hframe]
      exact hsame
  exact hboth.2

/-- Ages stay in order until the end. -/
theorem WellAged.step (hs : Claims s.provider)
    (haged : WellAged s.provider.state) (ha : a ≠ .dispose) :
    WellAged (s.step setup a).provider.state := by
  by_cases hcall : a.isCall = true
  · exact (Ripened.advances hs (Session.advances_step setup hcall s)).aged haged
  by_cases hhandling : a.isHandling = true
  · obtain ⟨t, ht, h⟩ := Session.handled_step setup hhandling s
    rw [h]
    exact haged.of_handled ht
  cases a with
  | update =>
    have hripened := Ripened.advances hs
      (Provider.advances_publishing setup s.position s.provider)
    exact (hripened.aged haged).compact
  | markReady c => exact haged.of_near rfl rfl
  | dispose => exact absurd rfl ha
  | _ => simp [Act.isCall, Act.isHandling] at hcall hhandling

end Undisturbed

variable {setup : Setup FarStore} {p q : Provider FarStore}
  {s : Session FarStore} {a : Act}

/-! ## Sweeps and the far tier -/

section Sweep

variable {s : StreamState FarStore}

/-- What an eviction moves is measured as a far tier has it. -/
theorem measured_evict (htier : setup.tier = FarStore.tier)
    (hplaced : s.Placed) (hs : s.far.Measured) (c : Coord) :
    (Eviction.evict setup c s).2.Placed
      ∧ (Eviction.evict setup c s).2.far.Measured
      ∧ (Eviction.evict setup c s).2.far.closed = s.far.closed := by
  rcases Eviction.evict_cases setup c s with
    ⟨t, hnote, hevict⟩ | ⟨t, chunk, hchunk, hput, hswept, hevict⟩
  · have hsame := hnote.sameStock
    rw [hevict, hsame.far]
    exact ⟨hplaced.of_near hsame.near, hs, rfl⟩
  · rw [htier] at hput
    obtain ⟨b, htook⟩ := FarStore.took_of_put hput
    have hb : b.Storable :=
      ((hplaced c chunk hchunk).content b htook.content).2
    rw [hevict]
    refine ⟨?_, htook.measured hs hb.allocated,
      htook.closed.trans htook.opened.symm⟩
    intro d chunk' h
    apply hplaced d chunk'
    rw [hswept.chunk?] at h
    split at h
    · cases h
    · exact h

/-- So is what the last stages of an update move. -/
theorem measured_compact (htier : setup.tier = FarStore.tier)
    (hplaced : s.Placed) (hs : s.far.Measured) :
    (Provider.compact setup (Provider.drainSignals s)).far.Measured
      ∧ (Provider.compact setup (Provider.drainSignals s)).far.closed
        = s.far.closed := by
  have hdrain := Published.drainSignals s
  have hstart : (Provider.drainSignals s).Placed := hplaced.of_near hdrain.near
  have hswept : (sweptState setup (Provider.drainSignals s)).Placed
      ∧ (sweptState setup (Provider.drainSignals s)).far.Measured
      ∧ (sweptState setup (Provider.drainSignals s)).far.closed
        = s.far.closed := by
    refine Eviction.sweep_preserve
      (P := fun t => t.Placed ∧ t.far.Measured ∧ t.far.closed = s.far.closed)
      (fun t m n ⟨hplaced, hmeasured, hclosed⟩ =>
        ⟨hplaced, hmeasured, hclosed⟩) ?_
      ⟨hstart, by rwa [hdrain.far], by rw [hdrain.far]⟩
    rintro t c ⟨htplaced, htmeasured, htclosed⟩
    obtain ⟨hplaced, hmeasured, hclosed⟩ :=
      measured_evict htier htplaced htmeasured c
    exact ⟨hplaced, hmeasured, hclosed.trans htclosed⟩
  rw [(sameStock_compact setup (Provider.drainSignals s)).far]
  exact hswept.2

end Sweep

/-! ## The invariant -/

/-- Along the run the resident chunks are in their places. -/
def Session.KeepsPlaces {σ : Type} (setup : Setup σ) (acts : List Act)
    (s : Session σ) : Prop :=
  ∀ acts', acts' <+: acts → (s.run setup acts').provider.state.Placed

/-- They are when the generator is faithful and nobody releases a chunk. -/
theorem Stocked.keepsPlaces (hs : Stocked s.provider)
    (htier : setup.tier = FarStore.tier)
    (hgenerator : setup.generator.Faithful) {acts : List Act}
    (hacts : ∀ a ∈ acts, a.keepsContent = true) :
    s.KeepsPlaces setup acts := by
  intro acts' hbegin
  have hend := (hs.run htier hgenerator
    fun a ha => hacts a (hbegin.subset ha)).1
  exact hend.sound.placed

/-- The provider has ended: nothing runs, nothing is resident, and what was
saved is what the far tier still holds. -/
structure Provider.Ended (setup : Setup FarStore) (p : Provider FarStore) :
    Prop where
  stopped : p.pipeline.stopped = true
  near : p.state.near = []
  saved : p.saved
    = if setup.obstacle = none then some p.state.far.save else none

/-- The provider goes on with an open far tier and nothing saved, or it has
ended. -/
structure Orderly (setup : Setup FarStore) (p : Provider FarStore) : Prop where
  claims : Claims p
  aged : WellAged p.state
  measured : p.state.far.Measured
  running : p.disposed = false → p.pipeline.stopped = false
    ∧ p.state.far.closed = false ∧ p.saved = none
  ended : p.disposed = true → p.Ended setup

namespace Orderly

theorem undisturbed (hp : Orderly setup p) (hclaims : Claims q)
    (haged : WellAged q.state) (h : p.Undisturbed q) : Orderly setup q where
  claims := hclaims
  aged := haged
  measured := by
    rw [h.far]
    exact hp.measured
  running hdisposed := by
    rw [h.stopped, h.far, h.saved]
    exact hp.running (h.disposed.symm.trans hdisposed)
  ended hdisposed := by
    obtain ⟨hstopped, hnear, hsaved⟩ :=
      hp.ended (h.disposed.symm.trans hdisposed)
    refine ⟨h.stopped.trans hstopped, h.near hstopped hnear, ?_⟩
    rw [h.saved, h.far]
    exact hsaved

theorem preparing_eq_nil (hp : Orderly setup p)
    (hdisposed : p.disposed = true) : p.state.preparing = [] := by
  have htasks := hp.claims.halted (hp.ended hdisposed).stopped
  have hperm := hp.claims.perm
  rw [htasks, Task.productions_nil] at hperm
  exact hperm.eq_nil

/-- An ended provider does nothing any more. -/
theorem inert (hs : Orderly setup s.provider)
    (hdisposed : s.provider.disposed = true) (a : Act) :
    s.provider.Undisturbed (s.step setup a).provider := by
  by_cases hdispose : a = .dispose
  · subst hdispose
    show s.provider.Undisturbed (s.provider.dispose setup)
    rw [Provider.dispose_of_disposed hdisposed]
    exact .refl _
  by_cases hupdate : a = .update
  · subst hupdate
    have hended := hs.ended hdisposed
    have hfollow := Provider.Undisturbed.advances hs.claims
      (Provider.advances_publishing setup s.position s.provider)
    have hpublished := Published.drainSignals
      (s.provider.publishing setup s.position)
    have hnear : (s.provider.sweeping setup s.position).near = [] :=
      hpublished.near.trans (hfollow.near hended.stopped hended.near)
    have hcompact : Provider.compact setup
        (s.provider.sweeping setup s.position)
          = s.provider.sweeping setup s.position := by
      rw [Provider.compact, Eviction.sweep_of_near_eq_nil setup hnear]
      rfl
    show s.provider.Undisturbed (s.provider.update setup s.position)
    rw [Provider.update_eq, hcompact]
    exact ⟨hpublished.far.trans hfollow.far, hfollow.saved, hfollow.disposed,
      hfollow.stopped, fun _ _ => hnear⟩
  · exact .step hs.claims hupdate hdispose

theorem update (hp : Orderly setup p) (htier : setup.tier = FarStore.tier)
    (hplaced : p.state.Placed) (hdisposed : p.disposed = false)
    (positions : ObserverId → Option Coord) :
    Orderly setup (p.update setup positions) := by
  obtain ⟨hopen, hfar, hsaved⟩ := hp.running hdisposed
  have hasks := Provider.asks_publishing setup positions p
  have hfollow := Provider.Undisturbed.advances hp.claims hasks.advances
  have hpublished : (p.publishing setup positions).Placed :=
    hplaced.of_near (hasks.near_eq hp.claims)
  have hmeasured : (p.publishing setup positions).far.Measured := by
    have hsame : (p.publishing setup positions).far = p.state.far := hfollow.far
    rw [hsame]
    exact hp.measured
  obtain ⟨hcompact, hclosed⟩ := measured_compact htier hpublished hmeasured
  have hdisposed' : (p.update setup positions).disposed = false :=
    hfollow.disposed.trans hdisposed
  refine ⟨hp.claims.update positions, ?_, hcompact, ?_, ?_⟩
  · exact ((Ripened.advances hp.claims hasks.advances).aged hp.aged).compact
  · intro _
    refine ⟨hfollow.stopped.trans hopen, ?_, hfollow.saved.trans hsaved⟩
    exact hclosed.trans ((congrArg FarStore.closed hfollow.far).trans hfar)
  · intro h
    rw [hdisposed'] at h
    cases h

theorem dispose (hp : Orderly setup p) (htier : setup.tier = FarStore.tier)
    (hplaced : p.state.Placed) (hdisposed : p.disposed = false) :
    Orderly setup (p.dispose setup) := by
  obtain ⟨-, hfar, hsaved⟩ := hp.running hdisposed
  obtain ⟨t, js, hflush, -, hstate, hend, hsave, hstop⟩ :=
    Provider.dispose_spec htier hdisposed (fun _ => hfar) hplaced hp.aged.keys
  have hnear : (p.dispose setup).state.near = [] := by
    rw [hstate]
    exact hflush.near_eq_nil
  refine ⟨hp.claims.dispose, .of_near_eq_nil hnear, ?_, ?_, ?_⟩
  · rw [hstate]
    obtain ⟨hkeys, hpayloads⟩ := hflush.measured hp.measured
    exact ⟨hkeys, hpayloads⟩
  · intro h
    rw [hend] at h
    cases h
  · intro _
    refine ⟨hstop.trans (hp.claims.shutdown_spec setup).1, hnear, ?_⟩
    rw [hsave, hsaved, hstate]

theorem step (hs : Orderly setup s.provider)
    (htier : setup.tier = FarStore.tier) (hplaced : s.provider.state.Placed)
    (a : Act) : Orderly setup (s.step setup a).provider := by
  have hclaims : Claims (s.step setup a).provider := hs.claims.step a
  cases hdisposed : s.provider.disposed with
  | true =>
    have hinert := hs.inert hdisposed a
    have hended := hs.ended hdisposed
    exact hs.undisturbed hclaims
      (.of_near_eq_nil (hinert.near hended.stopped hended.near)) hinert
  | false =>
    by_cases hupdate : a = .update
    · subst hupdate
      exact hs.update htier hplaced hdisposed s.position
    by_cases hdispose : a = .dispose
    · subst hdispose
      exact hs.dispose htier hplaced hdisposed
    · exact hs.undisturbed hclaims (hs.aged.step hs.claims hdispose)
        (.step hs.claims hupdate hdispose)

theorem start {far : FarStore} {world : String} {workers : Nat}
    (hopen : far.closed = false) (hmeasured : far.Measured)
    (hstart : Provider.start setup world workers far = .ok p) :
    Orderly setup p := by
  obtain ⟨hnote, -, hstopped, -⟩ := Provider.start_spec hstart
  obtain ⟨hdisposed, hsaved⟩ := Provider.disposed_start hstart
  have hfar : p.state.far = far := hnote.sameStock.far
  refine ⟨Claims.start hstart, .of_near_eq_nil hnote.sameStock.near, ?_, ?_, ?_⟩
  · rw [hfar]
    exact hmeasured
  · intro _
    rw [hfar]
    exact ⟨hstopped, hopen, hsaved⟩
  · intro h
    rw [hdisposed] at h
    cases h

/-! ## Runs -/

theorem run (hs : Orderly setup s.provider) (htier : setup.tier = FarStore.tier)
    {acts : List Act} (hplaces : s.KeepsPlaces setup acts) :
    Orderly setup (s.run setup acts).provider :=
  Session.run_induction (P := fun _ t => Orderly setup t.provider) hs
    fun acts' a hinit hbefore => hbefore.step htier
      (hplaces acts' ((List.prefix_append acts' [a]).trans hinit)) a

theorem inert_run (hs : Orderly setup s.provider)
    (hdisposed : s.provider.disposed = true) (acts : List Act) :
    Orderly setup (s.run setup acts).provider
      ∧ s.provider.Undisturbed (s.run setup acts).provider := by
  apply Session.run_preserve (P := fun t => Orderly setup t.provider
    ∧ s.provider.Undisturbed t.provider) ⟨hs, .refl _⟩
  rintro a - t ⟨hbefore, hsame⟩
  have hdisposed' := hsame.disposed.trans hdisposed
  have hended := hbefore.ended hdisposed'
  have hinert := hbefore.inert hdisposed' a
  refine ⟨?_, hsame.trans hinert⟩
  exact hbefore.undisturbed (hbefore.claims.step a)
    (.of_near_eq_nil (hinert.near hended.stopped hended.near)) hinert

end Orderly

/-! ## The end -/

/-- What the end of a provider comes to: nothing is resident, claimed or queued;
each resident chunk has been put once, locked or not, and released; the far tier
took those that had their content and has all else as before; and what was saved
loads as an open store of the same entries, whose number is a size of 64 bits as
in any store of a machine. -/
structure Provider.TornDown (setup : Setup FarStore)
    (p q : Provider FarStore) : Prop where
  near : q.state.near = []
  preparing : q.state.preparing = []
  tasks : q.pipeline.queue.tasks = []
  keys : (Table.keys p.state.near).Nodup
  journal : Puts (Table.keys p.state.near) p.state.journal q.state.journal
  puts : q.state.far.puts = p.state.far.puts
    + (Table.keys p.state.near).countP fun c =>
        (p.state.chunk? c).any (!·.isReleased)
  stored : ∀ c chunk b, p.state.chunk? c = some chunk →
    chunk.content = some b →
    q.state.far.get c = .ok (some (Chunk.ofBuffer b chunk.completion))
  others : ∀ c, (∀ chunk, p.state.chunk? c = some chunk →
      chunk.content = none) →
    q.state.far.get c = p.state.far.get c
  released : ∀ c r, p.state.resident? c = some r →
    { r with chunk := r.chunk.release } ∈ q.state.departed
  saved : setup.obstacle = none → q.saved = some q.state.far.save
  loaded : ∀ bytes, q.saved = some bytes → q.state.far.count < Size.limit →
    ∃ t, FarStore.load bytes = .ok t ∧ t.entries = q.state.far.entries
      ∧ t.closed = false

namespace Orderly

/-- What an ended provider has saved can be loaded again. -/
theorem exists_load (hp : Orderly setup p) (hdisposed : p.disposed = true)
    {bytes : List UInt8} (hsaved : p.saved = some bytes)
    (hcount : p.state.far.count < Size.limit) :
    ∃ t, FarStore.load bytes = .ok t ∧ t.entries = p.state.far.entries
      ∧ t.closed = false := by
  have hbytes : p.state.far.save = bytes := by
    have h := (hp.ended hdisposed).saved
    rw [hsaved] at h
    split at h
    · exact (Option.some.inj h).symm
    · cases h
  obtain ⟨t, hload, hentries, -, hopen⟩ :=
    FarStore.load_save hp.measured hcount
  rw [← hbytes]
  exact ⟨t, hload, hentries, hopen⟩

/-- A provider that has ended is torn down already. -/
theorem tornDown_self (hp : Orderly setup p) (hdisposed : p.disposed = true) :
    p.TornDown setup p := by
  have hended := hp.ended hdisposed
  have habsent := StreamState.chunk?_of_near_eq_nil hended.near
  have hkeys : Table.keys p.state.near = [] := by rw [hended.near]; rfl
  refine ⟨hended.near, hp.preparing_eq_nil hdisposed,
    hp.claims.halted hended.stopped, hp.aged.keys, ?_, ?_, ?_, fun _ _ => rfl,
    ?_, ?_, fun _ => hp.exists_load hdisposed⟩
  · rw [hkeys]
    exact .refl _
  · rw [hkeys]
    rfl
  · intro c chunk b hchunk
    rw [habsent] at hchunk
    cases hchunk
  · intro c r hr
    have hchunk := StreamState.chunk?_of_resident? hr
    rw [habsent] at hchunk
    cases hchunk
  · intro hobstacle
    rw [hended.saved, if_pos hobstacle]

theorem tornDown (hp : Orderly setup p) (htier : setup.tier = FarStore.tier)
    (hplaced : p.state.Placed) : p.TornDown setup (p.dispose setup) := by
  cases hdisposed : p.disposed with
  | true =>
    rw [Provider.dispose_of_disposed hdisposed]
    exact hp.tornDown_self hdisposed
  | false =>
    obtain ⟨-, hfar, -⟩ := hp.running hdisposed
    have hend := hp.dispose htier hplaced hdisposed
    obtain ⟨t, js, hflush, hjs, hstate, hdisposed', -, -⟩ :=
      Provider.dispose_spec htier hdisposed (fun _ => hfar) hplaced hp.aged.keys
    have hended := hend.ended hdisposed'
    refine ⟨hended.near, hend.preparing_eq_nil hdisposed',
      hend.claims.halted hended.stopped, hp.aged.keys, ?_, ?_, ?_, ?_, ?_, ?_,
      fun _ => hend.exists_load hdisposed'⟩
    · rw [hstate]
      simpa using hflush.journal.trans hjs
    · rw [hstate]
      exact hflush.puts
    · intro c chunk b hchunk hcontent
      have hb := ((hplaced c chunk hchunk).content b hcontent).2
      rw [hstate]
      exact hflush.get_of_mem (StreamState.mem_keys_of_chunk? hchunk) hchunk
        hcontent hb
    · intro c hcontent
      rw [hstate]
      exact hflush.get_of_absent fun _ => hcontent
    · intro c r hr
      have hchunk := StreamState.chunk?_of_resident? hr
      rw [hstate]
      exact hflush.released c (StreamState.mem_keys_of_chunk? hchunk) r hr
    · intro hobstacle
      rw [hended.saved, if_pos hobstacle]

end Orderly

/-- Over an open store, the end of every run in which resident chunks are in
their places tears the provider down, whatever is queued, locked or waiting to
be published; and nothing that happens afterwards brings a chunk or a claim, or
touches the far tier or what was saved. -/
theorem teardown_for_good (htier : setup.tier = FarStore.tier) {far : FarStore}
    {world : String} {workers : Nat} (hopen : far.closed = false)
    (hmeasured : far.Measured)
    (hstart : Provider.start setup world workers far = .ok p) {acts : List Act}
    (hplaces : (Session.ofProvider p).KeepsPlaces setup acts) :
    let s := (Session.ofProvider p).run setup acts
    let t := s.step setup .dispose
    s.provider.TornDown setup t.provider
      ∧ ∀ acts' : List Act, let u := t.run setup acts'
        u.provider.state.near = [] ∧ u.provider.state.preparing = []
          ∧ u.provider.state.far = t.provider.state.far
          ∧ u.provider.saved = t.provider.saved := by
  intro s t
  have hs : Orderly setup s.provider :=
    Orderly.run (s := .ofProvider p) (.start hopen hmeasured hstart) htier
      hplaces
  have hplaced : s.provider.state.Placed := hplaces acts (List.prefix_refl acts)
  refine ⟨hs.tornDown htier hplaced, ?_⟩
  intro acts' u
  have ht : Orderly setup t.provider := hs.step htier hplaced .dispose
  have hdisposed : t.provider.disposed = true :=
    s.provider.disposed_dispose setup
  obtain ⟨hu, hsame⟩ := ht.inert_run hdisposed acts'
  have hdisposed' := hsame.disposed.trans hdisposed
  exact ⟨(hu.ended hdisposed').near, hu.preparing_eq_nil hdisposed', hsame.far,
    hsame.saved⟩

/-- The origin is made and locked, and while its readiness waits to be published
the corner is queued. -/
def Act.leaveOpen : List Act :=
  [.request .origin, .work, .lock .origin, .markReady .origin,
    .request .corner]

/-- The locked chunk is put once, the queued production is dropped, and a later
request is not heard. -/
theorem teardown_for_good_of_leaveOpen :
    let s := (Session.ofProvider (.stored 0)).run (Setup.stored 0) Act.leaveOpen
    let t := s.step (Setup.stored 0) .dispose
    s.provider.state.signals = [.origin]
      ∧ .generate .corner ∈ s.provider.pipeline.queue.tasks
      ∧ (s.provider.state.chunk? .origin).any (·.locked) = true
      ∧ t.provider.pipeline.queue.tasks = []
      ∧ t.provider.state.far.puts = 1
      ∧ (t.run (Setup.stored 0) [.request .corner, .work]).provider.state.near
        = [] := by
  intro s t
  have hsignals : s.provider.state.signals = [.origin] := by decide +kernel
  have hqueued : .generate .corner ∈ s.provider.pipeline.queue.tasks := by
    decide +kernel
  have hlocked : (s.provider.state.chunk? .origin).any (·.locked) = true := by
    decide +kernel
  have hgenerator : (Setup.stored 0).generator.Faithful :=
    Script.faithful fun _ h => by cases h
  have hplaces : (Session.ofProvider (.stored 0)).KeepsPlaces (Setup.stored 0)
      Act.leaveOpen :=
    Stocked.keepsPlaces (.start rfl FarStore.filed_empty (start_stored 0)) rfl
      hgenerator (by decide)
  obtain ⟨htorn, hinert⟩ := teardown_for_good rfl rfl FarStore.measured_empty
    (start_stored 0) hplaces
  have hputs : t.provider.state.far.puts = s.provider.state.far.puts
      + (Table.keys s.provider.state.near).countP fun c =>
        (s.provider.state.chunk? c).any (!·.isReleased) := htorn.puts
  have hone : s.provider.state.far.puts
      + ((Table.keys s.provider.state.near).countP fun c =>
        (s.provider.state.chunk? c).any (!·.isReleased)) = 1 := by
    decide +kernel
  exact ⟨hsignals, hqueued, hlocked, htorn.tasks, hputs.trans hone,
    (hinert [.request .corner, .work]).1⟩

end ChunkStream
