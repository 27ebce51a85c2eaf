import ChunkStream.Proofs.Streaming.Announcements

/-!
# One readiness event for a residency

A readiness event is sent for a coordinate that has been announced, or because
somebody marked the coordinate.  Marks are answered by the next update, one
event each.  What has been raised for a coordinate, as events sent and signals
waiting, moves in step with its announcement: an act raises a coordinate when
it announces it or marks it, and in no other way.  Only an eviction takes an
announcement back.  Counting along a run gives the law: beside the answers to
marks, events are sent at moments of readiness, at most one for a residency, and
one for every residency that has become ready when a sweep begins.
-/

namespace ChunkStream

variable {σ : Type} {setup : Setup σ} {p : Provider σ} {w : Coord → Nat}

/-! ## Marks -/

/-- Marks of a coordinate since the last update. -/
def waitingMarks (c : Coord) (acts : List Act) : Nat :=
  (acts.reverse.takeWhile (· ≠ .update)).count (.markReady c)

/-- Marks of a coordinate that an update has come after. -/
def answeredMarks (c : Coord) (acts : List Act) : Nat :=
  (acts.reverse.dropWhile (· ≠ .update)).count (.markReady c)

theorem answeredMarks_add_waitingMarks (c : Coord) (acts : List Act) :
    answeredMarks c acts + waitingMarks c acts = acts.count (.markReady c) := by
  have hsplit := congrArg (List.count (Act.markReady c))
    (List.takeWhile_append_dropWhile (p := fun a => decide (a ≠ Act.update))
      (l := acts.reverse))
  rw [List.count_append, List.count_reverse] at hsplit
  rw [← hsplit, Nat.add_comm]
  rfl

theorem waitingMarks_concat (c : Coord) (acts : List Act) (a : Act) :
    waitingMarks c (acts ++ [a])
      = if a = .update then 0 else waitingMarks c acts + if a
          = .markReady c then 1 else 0 := by
  unfold waitingMarks
  rw [List.reverse_concat]
  by_cases ha : a = .update
  · simp [ha]
  · rw [List.takeWhile_cons_of_pos (by simpa using ha), if_neg ha,
      List.count_cons]
    simp

theorem answeredMarks_concat_of_ne {a : Act} (ha : a ≠ .update) (c : Coord)
    (acts : List Act) :
    answeredMarks c (acts ++ [a]) = answeredMarks c acts := by
  unfold answeredMarks
  rw [List.reverse_concat, List.dropWhile_cons_of_pos (by simpa using ha)]

theorem answeredMarks_concat_update (c : Coord) (acts : List Act) :
    answeredMarks c (acts ++ [.update]) = answeredMarks c acts
        + waitingMarks c acts := by
  have hall := answeredMarks_add_waitingMarks c (acts ++ [.update])
  rw [waitingMarks_concat, if_pos rfl, List.count_append,
    ← answeredMarks_add_waitingMarks] at hall
  simpa using hall

/-! ## What an act raises -/

/-- How often a coordinate has been raised, as events sent and as signals that
wait. -/
def StreamState.raised (s : StreamState σ) (c : Coord) : Nat :=
  s.sentReady c + s.signals.count c

/-- The state in which an act has done everything but its sweep. -/
def Session.stage (setup : Setup σ) (a : Act) (s : Session σ) : StreamState σ :=
  if a = .update then s.provider.sweeping setup s.position
  else (s.step setup a).provider.state

namespace Session

variable {s : Session σ} {a : Act} {c : Coord}

theorem stage_update (s : Session σ) :
    s.stage setup .update = s.provider.sweeping setup s.position := if_pos rfl

theorem stage_of_ne (ha : a ≠ .update) (s : Session σ) :
    s.stage setup a = (s.step setup a).provider.state := if_neg ha

theorem step_update_state (s : Session σ) :
    (s.step setup .update).provider.state = Provider.compact setup
      (s.stage setup .update) := by
  rw [stage_update]
  rfl

/-- Nothing goes in an act that neither sweeps nor ends the session. -/
theorem grown_step (hfinish : setup.generator.KeepsTag) (hp : Claims s.provider)
    (hs : WellAged s.provider.state) (htame : a.isTame = true)
    (hupdate : a ≠ .update)
    (hmark : ∀ c, a ≠ .markReady c) : Grown s.provider.state
    (s.step setup a).provider.state := by
  by_cases hcall : a.isCall = true
  · exact Grown.advances hfinish hp (advances_step setup hcall s)
  by_cases hhandling : a.isHandling = true
  · obtain ⟨t, ht, h⟩ := handled_step_of_isTame setup hhandling htame hs
    rw [h]
    exact Grown.of_handled ht
  cases a with
  | update => exact absurd rfl hupdate
  | markReady c => exact absurd rfl (hmark c)
  | dispose => simp [Act.isTame] at htame
  | _ => simp [Act.isCall, Act.isHandling] at hcall hhandling

theorem grown_publishing (hfinish : setup.generator.KeepsTag)
    (hp : Claims s.provider) :
    Grown s.provider.state (s.provider.publishing setup s.position) :=
  Grown.advances hfinish
    hp (Provider.advances_publishing setup s.position s.provider)

theorem announcements_stage (hfinish : setup.generator.KeepsTag)
    (hp : Claims s.provider)
    (hs : Announcements w s.provider.state) (htame : a.isTame = true) :
    Announcements
      (fun c => if a = .update then 0 else w c + if a
        = .markReady c then 1 else 0)
      (s.stage setup a) := by
  by_cases hupdate : a = .update
  · subst hupdate
    rw [stage_update]
    simp only [if_true]
    exact (hs.grown (grown_publishing hfinish hp)).drainSignals
  by_cases hmark : ∃ d, a = .markReady d
  · obtain ⟨d, rfl⟩ := hmark
    rw [stage_of_ne hupdate]
    have h := hs.signal d
    simp only [hupdate, if_false, Act.markReady.injEq, eq_comm (a := d)]
    exact h
  · simp only [not_exists] at hmark
    rw [stage_of_ne hupdate]
    simpa [hupdate, hmark]
      using hs.grown (grown_step hfinish hp hs.aged htame hupdate hmark)

/-- An act raises a coordinate when it announces it or marks it. -/
theorem raised_stage (hfinish : setup.generator.KeepsTag)
    (hp : Claims s.provider)
    (hs : WellAged s.provider.state) (htame : a.isTame = true) (c : Coord) :
    (s.stage setup a).raised c + s.provider.state.announcedBit c
      = s.provider.state.raised c + (s.stage setup a).announcedBit c
        + if a = .markReady c then 1 else 0 := by
  have hgrown {t : StreamState σ} (h : Grown s.provider.state t) :
      t.raised c + s.provider.state.announcedBit c
        = s.provider.state.raised c + t.announcedBit c := by
    have hsignals := h.signals c
    have hsent := h.sent c
    unfold StreamState.raised
    omega
  by_cases hupdate : a = .update
  · subst hupdate
    have hdrain := Published.drainSignals
      (s.provider.publishing setup s.position)
    have hraised := hgrown (grown_publishing hfinish hp)
    have hsent := hdrain.sent c
    rw [stage_update, if_neg (by simp), Nat.add_zero]
    simp only [StreamState.raised, StreamState.announcedBit, Provider.sweeping,
      hdrain.signals,
      hdrain.announced, List.count_nil] at hraised hsent ⊢
    rw [hsent]
    exact hraised
  by_cases hmark : ∃ d, a = .markReady d
  · obtain ⟨d, rfl⟩ := hmark
    have hstate : (s.step setup (.markReady d)).provider.state
      = s.provider.state.signal d := rfl
    have hbit : (s.provider.state.signal d).announcedBit c
      = s.provider.state.announcedBit c := rfl
    rw [stage_of_ne hupdate, hstate, hbit]
    simp only [StreamState.raised, StreamState.signal, StreamState.sentReady,
      List.count_append,
      List.count_cons, List.count_nil, Act.markReady.injEq, beq_iff_eq]
    omega
  · simp only [not_exists] at hmark
    rw [stage_of_ne hupdate, if_neg (hmark c), Nat.add_zero]
    exact hgrown (grown_step hfinish hp hs htame hupdate hmark)

/-- A sweep sends and signals nothing, and takes announcements back only where
it evicts. -/
theorem step_of_stage (hs : (s.stage setup a).announced.Nodup) (c : Coord) :
    (s.step setup a).provider.state.sentReady c = (s.stage setup a).sentReady c
      ∧ (s.step setup a).provider.state.signals = (s.stage setup a).signals
      ∧ (s.step setup a).provider.state.announcedBit c
        ≤ (s.stage setup a).announcedBit c
      ∧ ((s.step setup a).provider.state.isResident c = true →
        (s.step setup a).provider.state.announcedBit c
            = (s.stage setup a).announcedBit c) := by
  by_cases hupdate : a = .update
  · subst hupdate
    obtain ⟨hswept, -⟩ := Eviction.sweep_spec setup (s.stage setup .update)
    have hnotify := sameStock_compact setup (s.stage setup .update)
    have hmem := hswept.mem_announced (c := c) hs
    rw [step_update_state]
    refine ⟨hnotify.sentReady.trans hswept.sentReady,
      hnotify.signals.trans hswept.signals, ?_, ?_⟩
    · simp only [StreamState.announcedBit, hnotify.announced, sweptState, hmem]
      split
      · next h => rw [if_pos h.1]
      · exact Nat.zero_le _
    · intro hc
      rw [StreamState.isResident_congr hnotify.near, sweptState,
        hswept.isResident] at hc
      simp only [StreamState.announcedBit, hnotify.announced,
        sweptState, hmem, hc.2,
        not_false_eq_true, and_true]
  · rw [stage_of_ne hupdate]
    exact ⟨rfl, rfl, Nat.le_refl _, fun _ => rfl⟩

theorem announcements_step (hfinish : setup.generator.KeepsTag)
    (hp : Claims s.provider)
    (hs : Announcements w s.provider.state) (htame : a.isTame = true) :
    Announcements
      (fun c => if a = .update then 0 else w c + if a
        = .markReady c then 1 else 0)
      (s.step setup a).provider.state := by
  have h := announcements_stage hfinish hp hs htame
  by_cases hupdate : a = .update
  · subst hupdate
    rw [step_update_state]
    simp only [if_true] at h ⊢
    exact h.compact (Published.drainSignals _).signals
  · rwa [stage_of_ne hupdate] at h

/-- Only updates send readiness events. -/
theorem sentReady_step_of_ne (hfinish : setup.generator.KeepsTag)
    (hp : Claims s.provider)
    (hs : WellAged s.provider.state) (htame : a.isTame = true)
    (hupdate : a ≠ .update)
    (c : Coord) : (s.step setup a).provider.state.sentReady c
        = s.provider.state.sentReady c := by
  by_cases hmark : ∃ d, a = .markReady d
  · obtain ⟨d, rfl⟩ := hmark
    rfl
  · simp only [not_exists] at hmark
    exact (grown_step hfinish hp hs htame hupdate hmark).sent c

/-- An update sends what waits when it begins to publish. -/
theorem sentReady_step_update (hfinish : setup.generator.KeepsTag)
    (hp : Claims s.provider)
    (hs : Announcements w s.provider.state) (c : Coord) :
    (s.step setup .update).provider.state.sentReady c
      = s.provider.state.sentReady c
      + (s.provider.publishing setup s.position).signals.count c := by
  have hstage := announcements_stage hfinish hp hs (a := .update) rfl
  have hdrain := Published.drainSignals (s.provider.publishing setup s.position)
  rw [(step_of_stage hstage.nodup c).1, stage_update]
  exact (hdrain.sent c).trans
    (congrArg (· + _) ((grown_publishing hfinish hp).sent c))

end Session

/-! ## Runs -/

/-- The readiness events of a coordinate, apart from the answers to marks. -/
def unprompted (c : Coord) (acts : List Act) (s : StreamState σ) : Nat :=
  s.sentReady c - answeredMarks c acts

/-- What holds after a run: its marks wait or have been answered. -/
structure Counted (acts : List Act) (s : Session σ) : Prop where
  claims : Claims s.provider
  announcements : Announcements (fun c => waitingMarks c acts) s.provider.state
  answered : ∀ c, answeredMarks c acts ≤ s.provider.state.sentReady c

namespace Counted

variable {s : Session σ} {acts : List Act} {a : Act}

theorem start {world : String} {workers : Nat} {far : σ}
    (hstart : Provider.start setup world workers far = .ok p) :
    Counted [] (.ofProvider p) :=
  ⟨Claims.start hstart,
    (Announcements.start far).grown
      (.of_sameStock (Provider.start_spec hstart).1.sameStock),
    fun _ => Nat.zero_le _⟩

theorem stage (hfinish : setup.generator.KeepsTag) (hs : Counted acts s)
    (htame : a.isTame = true) :
    Announcements (fun c => waitingMarks c (acts ++ [a]))
      (s.stage setup a) := by
  simpa only [waitingMarks_concat] using
    Session.announcements_stage hfinish hs.claims hs.announcements htame

theorem step (hfinish : setup.generator.KeepsTag) (hs : Counted acts s)
    (htame : a.isTame = true) : Counted (acts ++ [a]) (s.step setup a) := by
  refine ⟨hs.claims.step a, ?_, ?_⟩
  · simpa only [waitingMarks_concat] using
      Session.announcements_step hfinish hs.claims hs.announcements htame
  · intro c
    have hanswered := hs.answered c
    by_cases hupdate : a = .update
    · subst hupdate
      have hmarks := (hs.announcements.grown
        (Session.grown_publishing hfinish hs.claims)).marks c
      rw [answeredMarks_concat_update,
        Session.sentReady_step_update hfinish hs.claims hs.announcements]
      omega
    · rwa [answeredMarks_concat_of_ne hupdate,
        Session.sentReady_step_of_ne hfinish hs.claims hs.announcements.aged
          htame hupdate]

theorem run (hfinish : setup.generator.KeepsTag) (hs : Counted acts s)
    {more : List Act}
    (hmore : ∀ a ∈ more, a.isTame = true) : Counted (acts ++ more)
    (s.run setup more) := by
  apply Session.run_induction (P := fun more t => Counted (acts ++ more) t)
  · rwa [List.append_nil]
  · intro more' a hinit hbefore
    rw [← List.append_assoc]
    exact hbefore.step hfinish (hmore a (hinit.subset List.mem_concat_self))

/-- What has been raised is the answers to marks, the other events and what
waits. -/
theorem raised_eq (hs : Counted acts s) (c : Coord) :
    ∃ waiting, s.provider.state.raised c
        = unprompted c acts s.provider.state + acts.count
          (.markReady c) + waiting
      ∧ waiting ≤ s.provider.state.announcedBit c := by
  have hmarks := hs.announcements.marks c
  have honce := hs.announcements.once c
  have hanswered := hs.answered c
  have hall := answeredMarks_add_waitingMarks c acts
  refine ⟨s.provider.state.signals.count c - waitingMarks c acts, ?_, ?_⟩
  · unfold StreamState.raised unprompted
    omega
  · by_cases hmore : s.provider.state.signals.count c = waitingMarks c acts + 1
    · rw [StreamState.announcedBit, if_pos (hs.announcements.pending c hmore).1]
      omega
    · omega

/-- Along a run a coordinate is raised once for each announcement and each mark,
and once more for each announcement that a sweep took back. -/
theorem raised_run (hfinish : setup.generator.KeepsTag) (hs : Counted acts s)
    {more : List Act} (hmore : ∀ a ∈ more, a.isTame = true) (c : Coord) :
    ∃ lost, (s.run setup more).provider.state.raised c
      + s.provider.state.announcedBit c
        = s.provider.state.raised c
          + (s.run setup more).provider.state.announcedBit c
          + more.count (.markReady c) + lost
      ∧ ((∀ acts', acts' <+: more → acts' ≠ [] →
        (s.run setup acts').provider.state.isResident c = true) →
            lost = 0) := by
  induction more using List.reverseRecOn with
  | nil => exact ⟨0, by simp [Session.run], fun _ => rfl⟩
  | append_singleton more a ih =>
    have hbefore : ∀ b ∈ more, b.isTame = true :=
      fun b hb => hmore b (List.mem_append_left _ hb)
    have htame := hmore a (List.mem_append_right _ (List.mem_singleton_self a))
    have hs' := hs.run hfinish hbefore
    obtain ⟨lost, hraised, hlost⟩ := ih hbefore
    have hstage := Session.raised_stage hfinish hs'.claims
      hs'.announcements.aged htame c
    obtain ⟨hsent, hsignals, hbit, hstay⟩ :=
      Session.step_of_stage (hs'.stage hfinish htame).nodup c
    rw [Session.run_concat]
    refine ⟨lost + (((s.run setup more).stage setup a).announcedBit c
      - ((s.run setup more).step setup a).provider.state.announcedBit c),
      ?_, ?_⟩
    · simp only [StreamState.raised, hsent, hsignals, List.count_append,
        List.count_cons, List.count_nil, beq_iff_eq] at hraised hstage ⊢
      omega
    · intro hres
      have hnone : lost = 0 := hlost fun acts' hinit hne =>
        hres acts' (hinit.trans (List.prefix_append _ _)) hne
      have hhere := hres (more ++ [a]) (List.prefix_refl _) (by simp)
      rw [Session.run_concat] at hhere
      rw [hnone, hstay hhere, Nat.sub_self]

/-- What the last act of a run has raised before its sweep. -/
theorem raised_run_stage (hfinish : setup.generator.KeepsTag)
    (hs : Counted acts s)
    {more : List Act} (hmore : ∀ b ∈ more ++ [a], b.isTame = true) (c : Coord) :
    ∃ lost, ((s.run setup more).stage setup a).raised c
      + s.provider.state.announcedBit c
        = s.provider.state.raised c
          + ((s.run setup more).stage setup a).announcedBit c
          + (more ++ [a]).count (.markReady c) + lost
      ∧ ((∀ acts', acts' <+: more → acts' ≠ [] →
        (s.run setup acts').provider.state.isResident c = true) →
            lost = 0) := by
  have hbefore : ∀ b ∈ more, b.isTame = true :=
    fun b hb => hmore b (List.mem_append_left _ hb)
  have htame := hmore a (List.mem_append_right _ (List.mem_singleton_self a))
  have hs' := hs.run hfinish hbefore
  obtain ⟨lost, hraised, hlost⟩ := hs.raised_run hfinish hbefore c
  have hstage := Session.raised_stage hfinish hs'.claims
    hs'.announcements.aged htame c
  refine ⟨lost, ?_, hlost⟩
  simp only [List.count_append, List.count_cons, List.count_nil, beq_iff_eq]
    at hstage ⊢
  omega

end Counted

/-! ## The law -/

/-- The state in which `k` of the waiting signals have been published. -/
def Provider.draining (k : Nat) (s : StreamState σ) : StreamState σ :=
  (s.signals.take k).foldl (fun s c => publishReady c s)
    { s with signals := [] }

theorem Provider.draining_length (s : StreamState σ) :
    draining s.signals.length s = drainSignals s := by
  rw [draining, List.take_length, drainSignals]

theorem Provider.near_draining (k : Nat) (s : StreamState σ) :
    (draining k s).near = s.near :=
  (Published.foldl (s.signals.take k) { s with signals := [] }).near

namespace Counted

variable {s : Session σ} {acts : List Act}

/-- Beside the answers to marks, only an update sends an event, and a coordinate
it is sent for is ready all the while. -/
theorem unprompted_step (hfinish : setup.generator.KeepsTag)
    (hs : Counted acts s) {a : Act} (htame : a.isTame = true) (c : Coord) :
    unprompted c (acts ++ [a]) (s.step setup a).provider.state
        = unprompted c acts s.provider.state
      ∨ a = .update
        ∧ unprompted c (acts ++ [a]) (s.step setup a).provider.state
          = unprompted c acts s.provider.state + 1
        ∧ ∀ k, (Provider.draining
            k (s.provider.publishing setup s.position)).isReady c = true := by
  by_cases hupdate : a = .update
  · subst hupdate
    have hpublishing :=
      hs.announcements.grown (Session.grown_publishing hfinish hs.claims)
    have hanswered := hs.answered c
    have hmarks := hpublishing.marks c
    have honce := hpublishing.once c
    have hsent := Session.sentReady_step_update hfinish hs.claims
      hs.announcements c
    simp only [unprompted, answeredMarks_concat_update, true_and]
    by_cases hown : (s.provider.publishing setup s.position).signals.count c
        = waitingMarks c acts + 1
    · refine .inr ⟨by omega, ?_⟩
      intro k
      rw [StreamState.isReady_congr (Provider.near_draining k _)]
      exact (hpublishing.pending c hown).2
    · exact .inl (by omega)
  · have hsent := Session.sentReady_step_of_ne hfinish hs.claims
      hs.announcements.aged htame
      hupdate c
    exact .inl (by rw [unprompted, answeredMarks_concat_of_ne hupdate, hsent,
      unprompted])

/-- As long as a coordinate stays resident there is at most one event. -/
theorem unprompted_le_of_resident (hfinish : setup.generator.KeepsTag)
    (hs : Counted acts s)
    {more : List Act} (hmore : ∀ a ∈ more, a.isTame = true) {c : Coord}
    (hresident : ∀ acts', acts' <+: more → acts' ≠ [] → acts' ≠ more →
      (s.run setup acts').provider.state.isResident c = true) :
    unprompted c (acts ++ more) (s.run setup more).provider.state
      ≤ unprompted c acts s.provider.state + 1 := by
  rcases List.eq_nil_or_concat' more with rfl | ⟨before, a, rfl⟩
  · rw [List.append_nil]
    exact Nat.le_succ _
  obtain ⟨waiting, hraised, hwaiting⟩ := hs.raised_eq c
  have htame := hmore a (List.mem_append_right _ (List.mem_singleton_self a))
  have hs' := hs.run hfinish fun b hb => hmore b (List.mem_append_left _ hb)
  obtain ⟨lost, hstage, hlost⟩ := hs.raised_run_stage hfinish hmore c
  have hnone : lost = 0 := hlost fun acts' hinit hne =>
    hresident acts' (hinit.trans (List.prefix_append _ _)) hne fun heq => by
      have hlength := hinit.length_le
      rw [heq, List.length_append, List.length_singleton] at hlength
      omega
  have hannounced := hs'.stage hfinish htame
  have hmarks := hannounced.marks c
  have hbit := ((s.run setup before).stage setup a).announcedBit_le c
  have hsent := (Session.step_of_stage hannounced.nodup c).1
  have hall := answeredMarks_add_waitingMarks c (acts ++ before ++ [a])
  rw [List.append_assoc, List.count_append] at hall
  rw [List.append_assoc] at hmarks
  rw [Session.run_concat]
  simp only [unprompted, StreamState.raised, hsent] at *
  omega

/-- What is ready when an update reaches its sweep has had an event since it was
last not resident. -/
theorem lt_unprompted_of_isReady (hfinish : setup.generator.KeepsTag)
    (hs : Counted acts s)
    {more : List Act} (hmore : ∀ a ∈ more, a.isTame = true) {c : Coord}
    (hgone : s.provider.state.isResident c = false)
    (hready : ((s.run setup more).stage setup .update).isReady c = true) :
    unprompted c acts s.provider.state
      < unprompted c (acts ++ more ++ [.update])
          ((s.run setup more).stage setup .update) := by
  obtain ⟨waiting, hraised, hwaiting⟩ := hs.raised_eq c
  have hmore' : ∀ b ∈ more ++ [.update], b.isTame = true := fun b hb =>
    (List.mem_append.1 hb).elim (hmore b) fun hb => by
      rw [List.mem_singleton.1 hb]
      rfl
  have hs' := hs.run hfinish hmore
  obtain ⟨lost, hstage, -⟩ := hs.raised_run_stage hfinish hmore' c
  have hsweep := hs'.stage hfinish (a := .update) rfl
  have hsignals : ((s.run setup more).stage setup .update).signals = [] := by
    rw [Session.stage_update]
    exact (Published.drainSignals _).signals
  have hbit : ((s.run setup more).stage setup .update).announcedBit c = 1 :=
    if_pos (hsweep.ready c hready)
  have hbit' : s.provider.state.announcedBit c = 0 := by
    apply if_neg
    intro hmem
    rw [hs.announcements.resident c hmem] at hgone
    cases hgone
  have hall := answeredMarks_add_waitingMarks c (acts ++ more ++ [.update])
  rw [waitingMarks_concat, if_pos rfl, List.append_assoc, List.count_append,
    ← List.append_assoc] at hall
  simp only [unprompted, StreamState.raised, hsignals, List.count_nil] at *
  omega

end Counted

/-- For every run that goes on and in which nobody outside changes a completion
tag, and apart from one event for each mark of a coordinate:

* readiness events are sent by updates only, one for a coordinate, and while an
  update publishes them the coordinate is ready;
* as long as a coordinate stays resident at most one is sent, also if it is
  evicted in the end;
* when an update reaches its sweep, one has been sent for what is ready since it
  was last not resident. -/
theorem ready_event_of_residency (hfinish : setup.generator.KeepsTag)
    {world : String} {workers : Nat} {far : σ}
    (hstart : Provider.start setup world workers far = .ok p)
    {acts : List Act} (hacts : ∀ a ∈ acts, a.isTame = true) (c : Coord) :
    let s := (Session.ofProvider p).run setup acts
    answeredMarks c acts ≤ s.provider.state.sentReady c
      ∧ (∀ a, a.isTame = true →
        unprompted c (acts ++ [a]) (s.step setup a).provider.state
            = unprompted c acts s.provider.state
          ∨ a = .update
            ∧ unprompted c (acts ++ [a]) (s.step setup a).provider.state
              = unprompted c acts s.provider.state + 1
            ∧ ∀ k, (Provider.draining
              k (s.provider.publishing setup s.position)).isReady c = true)
      ∧ (∀ more, (∀ a ∈ more, a.isTame = true) →
        (∀ acts', acts' <+: more → acts' ≠ [] → acts' ≠ more →
          (s.run setup acts').provider.state.isResident c = true) →
        unprompted c (acts ++ more) (s.run setup more).provider.state
          ≤ unprompted c acts s.provider.state + 1)
      ∧ (s.provider.state.isResident c = false →
        ∀ more, (∀ a ∈ more, a.isTame = true) →
        ((s.run setup more).stage setup .update).isReady c = true →
        unprompted c acts s.provider.state
          < unprompted c (acts ++ more ++ [.update])
              ((s.run setup more).stage setup .update)) := by
  intro s
  have hs : Counted acts s := (Counted.start hstart).run hfinish hacts
  exact ⟨hs.answered c, fun a htame => hs.unprompted_step hfinish htame c,
    fun more hmore hresident =>
      hs.unprompted_le_of_resident hfinish hmore hresident,
    fun hgone more hmore hready => hs.lt_unprompted_of_isReady hfinish hmore
      hgone hready⟩

/-- At the corner of the world four chunks make the corner ready, and the next
update sends its event before it sweeps. -/
theorem ready_event_of_corner :
    let acts := [.requestBox (Box.neighborhood .corner), .work, .work,
      .work, .work]
    let t := ((Session.ofProvider (.plain 8)).run (Setup.plain 8) acts).stage
      (Setup.plain 8) .update
    t.isReady .corner = true
        ∧ 0 < unprompted .corner (acts ++ [.update]) t := by
  intro acts t
  have hready : (((Session.ofProvider (.plain 8)).run (Setup.plain 8)
      [.requestBox (Box.neighborhood .corner), .work, .work, .work,
        .work]).stage
        (Setup.plain 8) .update).isReady .corner = true := by
    decide +kernel
  have hnone : ∀ a ∈ ([] : List Act), a.isTame = true := by simp
  have hevent := ready_event_of_residency
    (Generator.keepsTag_of_finishAtOnce (g := (Setup.plain 8).generator) rfl)
      (start_plain 8)
    hnone .corner
  exact ⟨hready, Nat.lt_of_le_of_lt (Nat.zero_le _)
    (hevent.2.2.2 (by decide +kernel) acts (by decide +kernel) hready)⟩

end ChunkStream
