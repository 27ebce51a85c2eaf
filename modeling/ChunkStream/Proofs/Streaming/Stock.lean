import ChunkStream.Proofs.Box.Reach
import ChunkStream.Proofs.Keys
import ChunkStream.Streaming.Session

/-!
# The stock of chunks

Observers and chunks meet in few places.  Whatever is done for observers leaves
the stock alone: the chunks, the claims, the announcements and the signals.
`SameStock` says so in one word, and facts about the stock, readiness above
all, carry over along it.
-/

namespace ChunkStream

/-- An entry that neither sends a readiness event nor tells of a chunk that
came, or that was dropped because its place was taken. -/
def JournalEntry.isAside : JournalEntry → Bool
  | .sent (.ready _) => false
  | .installed _ => false
  | .noted (.alreadyResident _) => false
  | _ => true

/-- The second journal has entries aside on top of the first, and no others. -/
def Asides (js ks : List JournalEntry) : Prop :=
  ∃ es, ks = es ++ js ∧ ∀ e ∈ es, e.isAside = true

namespace Asides

variable {js ks ls : List JournalEntry}

protected theorem refl (js : List JournalEntry) : Asides js js :=
  ⟨[], rfl, fun _ h => absurd h List.not_mem_nil⟩

protected theorem trans (h : Asides js ks) (h' : Asides ks ls) :
    Asides js ls := by
  obtain ⟨es, rfl, haside⟩ := h
  obtain ⟨es', rfl, haside'⟩ := h'
  refine ⟨es' ++ es, (List.append_assoc es' es js).symm, ?_⟩
  intro e he
  rcases List.mem_append.1 he with he | he
  · exact haside' e he
  · exact haside e he

theorem cons {e : JournalEntry} (he : e.isAside = true)
    (js : List JournalEntry) : Asides js (e :: js) :=
  ⟨[e], rfl, by simpa using he⟩

/-- An entry that is not aside is there as often as before. -/
theorem count_eq (h : Asides js ks) {e : JournalEntry}
    (he : e.isAside = false) : ks.count e = js.count e := by
  obtain ⟨es, rfl, haside⟩ := h
  rw [List.count_append, List.count_eq_zero_of_not_mem, Nat.zero_add]
  intro hmem
  simp [haside e hmem] at he

theorem mem_iff (h : Asides js ks) {e : JournalEntry} (he : e.isAside = false) :
    e ∈ ks ↔ e ∈ js := by
  rw [← List.count_pos_iff, h.count_eq he, List.count_pos_iff]

end Asides

/-- The centers are those of before, or the epoch has moved on. -/
def Recentered {σ : Type} (s t : StreamState σ) : Prop :=
  s.epoch < t.epoch ∨ t.epoch = s.epoch ∧ t.centers = s.centers

namespace Recentered

variable {σ : Type} {s t u : StreamState σ}

protected theorem refl (s : StreamState σ) : Recentered s s :=
  .inr ⟨rfl, rfl⟩

protected theorem trans (h : Recentered s t) (h' : Recentered t u) :
    Recentered s u := by
  rcases h with h | ⟨hepoch, hcenters⟩
  · rcases h' with h' | ⟨hepoch', -⟩
    · exact .inl (h.trans h')
    · exact .inl (hepoch' ▸ h)
  · rcases h' with h' | ⟨hepoch', hcenters'⟩
    · exact .inl (hepoch ▸ h')
    · exact .inr ⟨hepoch'.trans hepoch, hcenters'.trans hcenters⟩

end Recentered

/-- The second state differs from the first at most in its regions, the centers
published from them and entries aside in the journal. -/
structure SameStock {σ : Type} (s t : StreamState σ) : Prop where
  near : t.near = s.near
  departed : t.departed = s.departed
  preparing : t.preparing = s.preparing
  announced : t.announced = s.announced
  signals : t.signals = s.signals
  nextAge : t.nextAge = s.nextAge
  far : t.far = s.far
  recentered : Recentered s t
  journal : Asides s.journal t.journal

namespace SameStock

variable {σ : Type} {s t u : StreamState σ}

protected theorem refl (s : StreamState σ) : SameStock s s :=
  ⟨rfl, rfl, rfl, rfl, rfl, rfl, rfl, .refl _, .refl _⟩

protected theorem trans (h : SameStock s t) (h' : SameStock t u) :
    SameStock s u where
  near := h'.near.trans h.near
  departed := h'.departed.trans h.departed
  preparing := h'.preparing.trans h.preparing
  announced := h'.announced.trans h.announced
  signals := h'.signals.trans h.signals
  nextAge := h'.nextAge.trans h.nextAge
  far := h'.far.trans h.far
  recentered := h.recentered.trans h'.recentered
  journal := h.journal.trans h'.journal

/-- What may differ where the stock is the same. -/
theorem frame (h : SameStock s t) : t = { s with
    regions := t.regions
    centers := t.centers
    epoch := t.epoch
    journal := t.journal } := by
  rw [← h.near, ← h.departed, ← h.preparing, ← h.announced, ← h.signals,
    ← h.nextAge, ← h.far]

theorem record {e : JournalEntry} (he : e.isAside = true) (s : StreamState σ) :
    SameStock s (s.record e) :=
  ⟨rfl, rfl, rfl, rfl, rfl, rfl, rfl, .inr ⟨rfl, rfl⟩, .cons he _⟩

theorem regions (s : StreamState σ) (rs : Table ObserverId Interest) :
    SameStock s { s with regions := rs } :=
  ⟨rfl, rfl, rfl, rfl, rfl, rfl, rfl, .inr ⟨rfl, rfl⟩, .refl _⟩

/-- A chain of operations beside the stock is beside the stock. -/
theorem foldl {α : Type} {f : StreamState σ → α → StreamState σ}
    (hf : ∀ s a, SameStock s (f s a)) (as : List α) (s : StreamState σ) :
    SameStock s (as.foldl f s) :=
  List.foldlRecOn as f (.refl s) fun t ht a _ => ht.trans (hf t a)

theorem tell (i : Interest) (callbacks : List Callback) (s : StreamState σ) :
    SameStock s (s.tell i callbacks) := by
  unfold StreamState.tell
  split
  · exact foldl (fun s cb => record rfl s) callbacks s
  · exact .refl s

theorem updateRegion (id : ObserverId) (f : Interest → Interest × List Callback)
    (s : StreamState σ) : SameStock s (s.updateRegion id f) := by
  unfold StreamState.updateRegion
  split
  · exact .refl s
  · exact (regions s _).trans (tell _ _ _)

theorem updateRegions (f : Interest → Interest × List Callback)
    (s : StreamState σ) : SameStock s (s.updateRegions f) :=
  foldl (fun s id => updateRegion id f s) _ s

theorem publishCenters (s : StreamState σ) : SameStock s s.publishCenters := by
  unfold StreamState.publishCenters
  simp only
  split
  · exact .refl s
  · exact ⟨rfl, rfl, rfl, rfl, rfl, rfl, rfl, .inl (Nat.lt_succ_self _),
      .refl _⟩

theorem reportReady (id : ObserverId) (cs : List Coord) (s : StreamState σ) :
    SameStock s (Provider.reportReady id cs s) := by
  refine foldl ?_ cs s
  intro s c
  split
  · exact updateRegion id _ s
  · exact .refl s

theorem notifyUnloaded (c : Coord) (s : StreamState σ) :
    SameStock s (Eviction.notifyUnloaded c s) :=
  (updateRegions _ s).trans (record rfl _)

end SameStock

/-! ## Residency and readiness are matters of the near cache -/

namespace StreamState

variable {σ : Type} {s t : StreamState σ} {c : Coord}

theorem resident?_congr (h : t.near = s.near) (c : Coord) :
    t.resident? c = s.resident? c := by
  simp only [resident?, h]

theorem chunk?_congr (h : t.near = s.near) (c : Coord) :
    t.chunk? c = s.chunk? c := by
  rw [chunk?, chunk?, resident?_congr h]

theorem isResident_congr (h : t.near = s.near) (c : Coord) :
    t.isResident c = s.isResident c := by
  simp only [isResident, resident?, h]

theorem isResidentComplete_congr (h : t.near = s.near) (c : Coord) :
    t.isResidentComplete c = s.isResidentComplete c := by
  simp only [isResidentComplete, resident?, h]

theorem isReady_congr (h : t.near = s.near) (c : Coord) :
    t.isReady c = s.isReady c := by
  simp only [isReady, isResidentComplete_congr h,
    funext (isResidentComplete_congr h)]

theorem isResident_iff_mem_keys :
    s.isResident c = true ↔ c ∈ Table.keys s.near :=
  Table.mem_keys_iff.symm

theorem isResident_eq (s : StreamState σ) (c : Coord) :
    s.isResident c = (s.chunk? c).isSome := by
  rw [isResident, chunk?, Option.isSome_map]

theorem chunk?_of_resident? {r : Resident} (h : s.resident? c = some r) :
    s.chunk? c = some r.chunk := by
  rw [chunk?, h]
  rfl

theorem mem_keys_of_chunk? {chunk : Chunk} (h : s.chunk? c = some chunk) :
    c ∈ Table.keys s.near := by
  rw [← isResident_iff_mem_keys, isResident_eq, h]
  rfl

theorem chunk?_adjustChunk (f : Chunk → Chunk) (d : Coord) :
    (s.adjustChunk c f).chunk? d
      = if d = c then (s.chunk? c).map f else s.chunk? d := by
  simp only [chunk?, resident?, adjustChunk, Table.get?_adjust]
  by_cases hd : d = c
  · simp [hd, Function.comp_def]
  · simp [hd]

theorem isResident_of_complete (h : s.isResidentComplete c = true) :
    s.isResident c = true := by
  unfold isResidentComplete at h
  unfold isResident
  cases hr : s.resident? c with
  | none => simp [hr] at h
  | some r => rfl

/-- The coordinate is resident or on its way. -/
def Holds (s : StreamState σ) (c : Coord) : Prop :=
  s.isResident c = true ∨ c ∈ s.preparing

/-- Ready is who is complete together with all neighbours. -/
theorem isReady_iff :
    s.isReady c = true ↔
      ∀ n, (Box.neighborhood c).contains n = true →
          s.isResidentComplete n = true := by
  simp only [isReady, Bool.and_eq_true, List.all_eq_true, Box.mem_toList_iff]
  exact ⟨fun h => h.2, fun h => ⟨h c Box.contains_neighborhood_self, h⟩⟩

theorem isResidentComplete_of_isReady (h : s.isReady c = true) :
    s.isResidentComplete c = true :=
  isReady_iff.1 h c Box.contains_neighborhood_self

theorem isResident_of_isReady (h : s.isReady c = true) :
    s.isResident c = true :=
  isResident_of_complete (isResidentComplete_of_isReady h)

/-- As long as nothing complete is lost, what is ready stays ready. -/
theorem isReady_mono
    (h : ∀ n, s.isResidentComplete n = true → t.isResidentComplete n = true)
    (hc : s.isReady c = true) : t.isReady c = true :=
  isReady_iff.2 fun n hn => h n (isReady_iff.1 hc n hn)

end StreamState

end ChunkStream
