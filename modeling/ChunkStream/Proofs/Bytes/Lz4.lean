import ChunkStream.Bytes.Lz4

/-!
# LZ4 blocks read back

Parsing undoes printing for every block whose offsets fit their field and whose
matches are long enough to be written.  Expanding undoes compression because a
match is only taken where the bytes have been compared: at each step of the
compressor the sequences so far expand to the text so far.  Marks and tables of
places seen play no part in this, whatever they hold.
-/

namespace ChunkStream.Lz4

open Bytes

/-! ## Lengths -/

theorem nibble_le (n : Nat) : nibble n ≤ 15 := Nat.min_le_right n 15

theorem toNat_token (literals matched : Nat) :
    (token literals matched).toNat = 16 * nibble literals + nibble matched := by
  have hliterals := nibble_le literals
  have hmatched := nibble_le matched
  unfold token
  rw [UInt8.toNat_ofNat_of_lt' (by change _ < 256; omega)]

theorem token_high (literals matched : Nat) :
    (token literals matched).toNat / 16 = nibble literals := by
  have hmatched := nibble_le matched
  rw [toNat_token]
  omega

theorem token_low (literals matched : Nat) :
    (token literals matched).toNat % 16 = nibble matched := by
  have hmatched := nibble_le matched
  rw [toNat_token]
  omega

theorem parseLength_replicate (k n : Nat) {b : UInt8} (hb : b ≠ 255)
    (rest : List UInt8) :
    parseLength n (List.replicate k 255 ++ b :: rest)
      = .ok (n + 255 * k + b.toNat, rest) := by
  induction k generalizing n with
  | zero => simp [parseLength, hb]
  | succ k ih =>
    rw [List.replicate_succ, List.cons_append, parseLength, if_pos rfl, ih,
      Nat.mul_succ, Nat.add_right_comm n 255, Nat.add_assoc n]

theorem parseLength_printLength (n m : Nat) (rest : List UInt8) :
    parseLength n (printLength m ++ rest) = .ok (n + m, rest) := by
  have hlast : (UInt8.ofNat (m % 255)).toNat = m % 255 :=
    UInt8.toNat_ofNat_of_lt' (by change _ < 256; omega)
  have hb : UInt8.ofNat (m % 255) ≠ 255 := by
    intro h
    have hnat := congrArg UInt8.toNat h
    rw [hlast] at hnat
    change m % 255 = 255 at hnat
    omega
  rw [printLength, List.append_assoc, List.singleton_append,
    parseLength_replicate _ _ hb, hlast]
  congr 2
  omega

/-- A length field reads back from its bits and its continuation. -/
theorem parseField_continuation (n : Nat) (rest : List UInt8) :
    parseField (nibble n) (continuation n ++ rest) = .ok (n, rest) := by
  unfold parseField continuation nibble
  by_cases hn : n < 15
  · rw [if_pos (by omega), if_pos hn, Nat.min_eq_left (by omega)]
    rfl
  · rw [if_neg (by omega), if_neg hn, parseLength_printLength,
      Nat.add_sub_cancel' (by omega)]

/-! ## Blocks -/

/-- The sequence can be written: its offset fits two bytes, and its match is not
too short. -/
structure Sequence.Printable (s : Sequence) : Prop where
  offset : s.offset < capacity 2
  length : shortestMatch ≤ s.length

theorem splitExactly_append (head rest : List UInt8) :
    splitExactly head.length (head ++ rest) = some (head, rest) := by
  simp [splitExactly]

theorem parseFrom_final (fuel : Nat) (done : List Sequence)
    (final : List UInt8) :
    parseFrom (fuel + 1) done
        (token final.length 0 :: (continuation final.length ++ final))
      = .ok ⟨done.reverse, final⟩ := by
  have hsplit := splitExactly_append final []
  rw [List.append_nil] at hsplit
  simp only [parseFrom, token_high, parseField_continuation, bind, Except.bind,
    hsplit]
  rfl

theorem parseFrom_sequence (fuel : Nat) (done : List Sequence) {s : Sequence}
    (hs : s.Printable) (rest : List UInt8) :
    parseFrom (fuel + 1) done (s.print ++ rest)
      = parseFrom fuel (s :: done) rest := by
  have hoffset := decodeNat_encodeNat hs.offset
    (continuation (s.length - shortestMatch) ++ rest)
  have hlength : s.length - shortestMatch + shortestMatch = s.length :=
    Nat.sub_add_cancel hs.length
  have hsplit := splitExactly_append s.literals (encodeNat 2 s.offset
    ++ (continuation (s.length - shortestMatch) ++ rest))
  -- an offset follows the literals, so they are not taken for the final ones
  obtain ⟨b, bs, htail⟩ : ∃ b bs, encodeNat 2 s.offset
      ++ (continuation (s.length - shortestMatch) ++ rest) = b :: bs :=
    ⟨_, _, rfl⟩
  rw [htail] at hsplit hoffset
  simp only [Sequence.print, List.cons_append, List.append_assoc, htail,
    parseFrom, token_high, token_low, parseField_continuation, bind,
    Except.bind, hsplit, hoffset, hlength]

theorem parseFrom_print {fuel : Nat} {sequences : List Sequence}
    (hfuel : sequences.length < fuel)
    (hsequences : ∀ s ∈ sequences, s.Printable) (done : List Sequence)
    (final : List UInt8) :
    parseFrom fuel done (Block.mk sequences final).print
      = .ok ⟨done.reverse ++ sequences, final⟩ := by
  induction sequences generalizing fuel done with
  | nil =>
    obtain ⟨fuel, rfl⟩ := Nat.exists_eq_succ_of_ne_zero (Nat.ne_of_gt hfuel)
    rw [List.append_nil]
    exact parseFrom_final fuel done final
  | cons s sequences ih =>
    rw [List.length_cons] at hfuel
    obtain ⟨fuel, rfl⟩ := Nat.exists_eq_succ_of_ne_zero (by omega : fuel ≠ 0)
    have hprint : (Block.mk (s :: sequences) final).print
        = s.print ++ (Block.mk sequences final).print := by
      simp [Block.print]
    rw [hprint, parseFrom_sequence fuel done (hsequences s List.mem_cons_self),
      ih (by omega) fun r hr => hsequences r (List.mem_cons_of_mem s hr),
      List.reverse_cons, List.append_assoc, List.singleton_append]

theorem length_lt_length_print (b : Block) :
    b.sequences.length < b.print.length := by
  have hsequences : b.sequences.length
      ≤ (b.sequences.flatMap Sequence.print).length := by
    induction b.sequences with
    | nil => exact Nat.le_refl _
    | cons s sequences ih =>
      simp only [List.flatMap_cons, List.length_append, Sequence.print,
        List.length_cons] at ih ⊢
      omega
  simp only [Block.print, List.length_append, List.length_cons]
  omega

/-- Parsing undoes printing. -/
theorem parse_print {b : Block} (hb : ∀ s ∈ b.sequences, s.Printable) :
    Block.parse b.print = .ok b :=
  parseFrom_print (length_lt_length_print b) hb [] b.final

/-! ## Text -/

theorem copyMatch_spec (text : Array UInt8) {offset n place : Nat}
    (hoffset : 0 < offset) (hback : offset ≤ place)
    (hend : place + n ≤ text.size)
    (hsame : ∀ k < n, text[place - offset + k]? = text[place + k]?) :
    copyMatch offset n (text.extract 0 place)
      = text.extract 0 (place + n) := by
  induction n generalizing place with
  | zero => rfl
  | succ n ih =>
    have hplace : place < text.size := by omega
    have hsize : (text.extract 0 place).size = place := by
      rw [Array.size_extract]
      omega
    have hbyte : (text.extract 0 place).getD (place - offset) 0
        = text[place] := by
      have hhere := hsame 0 (Nat.succ_pos n)
      rw [Nat.add_zero, Nat.add_zero, Array.getElem?_eq_getElem hplace] at hhere
      have hearlier : (text.extract 0 place)[place - offset]?
          = text[place - offset]? := by
        rw [Array.getElem?_extract, if_pos (by omega), Nat.zero_add]
      rw [Array.getD_eq_getD_getElem?, hearlier, hhere, Option.getD_some]
    have hnext : (text.extract 0 place).push text[place]
        = text.extract 0 (place + 1) := by
      rw [Array.push_extract_getElem, Nat.zero_min]
    rw [copyMatch, hsize, hbyte, hnext, ih (by omega) (by omega)]
    · congr 1
      omega
    · intro k hk
      have hnext := hsame (k + 1) (by omega)
      rw [show place + 1 - offset + k = place - offset + (k + 1) by omega,
        show place + 1 + k = place + (k + 1) by omega]
      exact hnext

theorem extract_appendList_slice (text : Array UInt8) {start stop : Nat}
    (h : start ≤ stop) :
    (text.extract 0 start).appendList (slice text start stop)
      = text.extract 0 stop := by
  apply Array.toList_inj.1
  rw [Array.appendList_eq_append, Array.toList_appendList, slice,
    ← Array.toList_append, Array.extract_append_extract, Nat.zero_min,
    Nat.max_eq_right h]

theorem length_slice (text : Array UInt8) {start stop : Nat}
    (h : stop ≤ text.size) : (slice text start stop).length = stop - start := by
  rw [slice, Array.length_toList, Array.size_extract, Nat.min_eq_left h]

/-! ## Compression -/

theorem matchEnd_spec (text : Array UInt8) (n i j : Nat) :
    j ≤ matchEnd text n i j ∧ matchEnd text n i j ≤ j + n
      ∧ ∀ k < matchEnd text n i j - j, text[i + k]? = text[j + k]? := by
  induction n generalizing i j with
  | zero =>
    refine ⟨Nat.le_refl j, Nat.le_refl j, ?_⟩
    intro k hk
    simp [matchEnd] at hk
  | succ n ih =>
    unfold matchEnd
    split
    · next hhere =>
      obtain ⟨hlow, hhigh, hsame⟩ := ih (i + 1) (j + 1)
      refine ⟨by omega, by omega, ?_⟩
      intro k hk
      cases k with
      | zero => exact hhere
      | succ k =>
        have hnext := hsame k (by omega)
        rwa [Nat.add_right_comm i, Nat.add_right_comm j, Nat.add_assoc i,
          Nat.add_assoc j] at hnext
    · exact ⟨Nat.le_refl j, Nat.le_add_right j _, fun k hk => by omega⟩

/-- A match that is found can be written, stays within the text and repeats
earlier bytes of it. -/
theorem findMatch_spec {text : Array UInt8} {seen : Seen}
    {mark place offset length : Nat} (hplace : place + lastStart ≤ text.size)
    (h : findMatch text seen mark place = some (offset, length)) :
    0 < offset ∧ offset ≤ place ∧ offset < capacity 2 ∧ shortestMatch ≤ length
      ∧ place + length ≤ text.size
      ∧ ∀ k < length, text[place - offset + k]? = text[place + k]? := by
  unfold findMatch at h
  split at h
  · cases h
  · next earlier _ =>
    simp only at h
    split at h
    · next hgood =>
      cases h
      obtain ⟨hearlier, hfar, hshort⟩ := hgood
      obtain ⟨hlow, hhigh, hsame⟩ := matchEnd_spec text
        (text.size - tailLength - place) earlier place
      have hcapacity : capacity 2 = 65536 := rfl
      unfold farthest at hfar
      unfold lastStart at hplace
      refine ⟨by omega, by omega, by omega, hshort, by omega, ?_⟩
      intro k hk
      rw [Nat.sub_sub_self (Nat.le_of_lt hearlier)]
      exact hsame k hk
    · cases h

/-- A sequence of literals up to a place and a match found there expands to the
text up to the end of the match. -/
theorem expand_sequence {text : Array UInt8}
    {limit start place offset length : Nat} (hlimit : text.size ≤ limit)
    (hstart : start ≤ place) (hoffset : 0 < offset)
    (hback : offset ≤ place) (hend : place + length ≤ text.size)
    (hsame : ∀ k < length, text[place - offset + k]? = text[place + k]?) :
    Sequence.expand limit (text.extract 0 start)
        ⟨slice text start place, offset, length⟩
      = .ok (text.extract 0 (place + length)) := by
  have hsize (n : Nat) (hn : n ≤ text.size) : (text.extract 0 n).size = n := by
    rw [Array.size_extract]
    omega
  unfold Sequence.expand
  simp only [length_slice text (Nat.le_trans (Nat.le_add_right place length)
    hend), extract_appendList_slice text hstart]
  rw [hsize start (by omega), hsize place (by omega), if_neg (by omega),
    if_neg (by omega), if_neg (by omega),
    copyMatch_spec text hoffset hback hend hsame]

/-- The sequences so far expand to the text so far. -/
def Expands (limit : Nat) (text : Array UInt8) (done : List Sequence)
    (start : Nat) : Prop :=
  done.reverse.foldlM (Sequence.expand limit) #[] = .ok (text.extract 0 start)

theorem Expands.final {limit : Nat} {text : Array UInt8} {done : List Sequence}
    {start : Nat} (hdone : Expands limit text done start)
    (hlimit : text.size ≤ limit) (hstart : start ≤ text.size) :
    Block.expand limit ⟨done.reverse, slice text start text.size⟩
      = .ok text := by
  have hsize : (text.extract 0 start).size = start := by
    rw [Array.size_extract]
    omega
  have hlength : (slice text start text.size).length = text.size - start :=
    length_slice text (Nat.le_refl text.size)
  unfold Block.expand
  rw [show done.reverse.foldlM (Sequence.expand limit) #[] = _ from hdone]
  simp only [bind, Except.bind, hsize, hlength]
  rw [if_neg (by omega), extract_appendList_slice text hstart,
    Array.extract_size]
  rfl

theorem Expands.next {limit : Nat} {text : Array UInt8} {done : List Sequence}
    {start stop : Nat} (hdone : Expands limit text done start) {s : Sequence}
    (hs : s.expand limit (text.extract 0 start)
      = .ok (text.extract 0 stop)) : Expands limit text (s :: done) stop := by
  unfold Expands at hdone ⊢
  rw [List.reverse_cons, List.foldlM_append, hdone]
  simp only [bind, Except.bind, List.foldlM_cons, List.foldlM_nil, hs]
  rfl

theorem compressFrom_spec {limit : Nat} {text : Array UInt8}
    (hlimit : text.size ≤ limit) (mark : Nat → Nat) (fuel : Nat) (seen : Seen)
    {done : List Sequence} {start place : Nat}
    (hdone : Expands limit text done start)
    (hprintable : ∀ s ∈ done, s.Printable) (hstart : start ≤ place)
    (hplace : place ≤ text.size) :
    (compressFrom mark text fuel seen done start place).expand limit = .ok text
      ∧ ∀ s ∈ (compressFrom mark text fuel seen done start place).sequences,
        s.Printable := by
  induction fuel generalizing seen done start place with
  | zero =>
    exact ⟨hdone.final hlimit (Nat.le_trans hstart hplace),
      fun s hs => hprintable s (List.mem_reverse.1 hs)⟩
  | succ fuel ih =>
    unfold compressFrom
    by_cases hroom : place + lastStart ≤ text.size
    · rw [if_pos hroom]
      cases hfound : findMatch text seen (mark place) place with
      | none =>
        have hnext : place + 1 ≤ text.size := by
          unfold lastStart at hroom
          omega
        exact ih _ hdone hprintable (Nat.le_succ_of_le hstart) hnext
      | some found =>
        obtain ⟨offset, length⟩ := found
        obtain ⟨hoffset, hback, hfits, hshort, hend, hsame⟩ :=
          findMatch_spec hroom hfound
        refine ih _ (hdone.next (expand_sequence hlimit hstart hoffset hback
          hend hsame)) ?_ (Nat.le_refl _) hend
        intro s hs
        rcases List.mem_cons.1 hs with rfl | hs
        · exact ⟨hfits, hshort⟩
        · exact hprintable s hs
    · rw [if_neg hroom]
      exact ⟨hdone.final hlimit (Nat.le_trans hstart hplace),
        fun s hs => hprintable s (List.mem_reverse.1 hs)⟩

/-- Expanding undoes compression, and what compression makes can be written. -/
theorem expand_compress {limit : Nat} {text : Array UInt8}
    (hlimit : text.size ≤ limit) :
    (compress text).expand limit = .ok text
      ∧ ∀ s ∈ (compress text).sequences, s.Printable := by
  have hempty : Expands limit text [] 0 := by
    unfold Expands
    rw [Array.extract_zero]
    rfl
  exact compressFrom_spec hlimit (markAt text) text.size _ hempty
    (fun s hs => absurd hs List.not_mem_nil) (Nat.le_refl 0) (Nat.zero_le _)

/-! ## Size -/

/-- A continuation takes one byte for 255, and none for a short length. -/
theorem length_continuation_le (n : Nat) :
    255 * (continuation n).length ≤ n + 240
      ∧ 255 * (continuation n).length ≤ 17 * n := by
  unfold continuation
  by_cases hn : n < 15
  · rw [if_pos hn, List.length_nil]
    omega
  · rw [if_neg hn]
    simp only [printLength, List.length_append, List.length_replicate,
      List.length_singleton]
    omega

theorem size_copyMatch (offset n : Nat) (text : Array UInt8) :
    (copyMatch offset n text).size = text.size + n := by
  induction n generalizing text with
  | zero => rfl
  | succ n ih =>
    rw [copyMatch, ih, Array.size_push]
    omega

theorem size_appendList (text : Array UInt8) (bytes : List UInt8) :
    (text.appendList bytes).size = text.size + bytes.length := by
  rw [Array.appendList_eq_append, ← Array.length_toList,
    Array.toList_appendList, List.length_append, Array.length_toList]

theorem Sequence.size_of_expand {limit : Nat} {text next : Array UInt8}
    {s : Sequence} (h : s.expand limit text = .ok next) :
    next.size = text.size + s.literals.length + s.length := by
  simp only [Sequence.expand] at h
  split at h
  · cases h
  · split at h
    · cases h
    · split at h
      · cases h
      · cases h
        rw [size_copyMatch, size_appendList]

/-- A sequence takes at most one byte for each byte of its text and one more for
255 of them; the shortest match makes up for the token and the offset. -/
theorem Sequence.length_print_le {limit : Nat} {text next : Array UInt8}
    {s : Sequence} (hs : s.Printable) (h : s.expand limit text = .ok next) :
    255 * s.print.length + 256 * text.size ≤ 256 * next.size := by
  have hsize := s.size_of_expand h
  have hliterals := (length_continuation_le s.literals.length).1
  have hmatch := (length_continuation_le (s.length - shortestMatch)).2
  have hshort := hs.length
  simp only [Sequence.print, List.length_cons, List.length_append,
    length_encodeNat, shortestMatch] at hmatch hshort ⊢
  omega

theorem length_flatMap_print_le {limit : Nat} {sequences : List Sequence}
    (hsequences : ∀ s ∈ sequences, s.Printable) {start stop : Array UInt8}
    (h : sequences.foldlM (Sequence.expand limit) start = .ok stop) :
    255 * (sequences.flatMap Sequence.print).length + 256 * start.size
      ≤ 256 * stop.size := by
  induction sequences generalizing start with
  | nil =>
    cases h
    simp
  | cons s sequences ih =>
    rw [List.foldlM_cons] at h
    cases hnext : s.expand limit start with
    | error cause =>
      rw [hnext] at h
      cases h
    | ok next =>
      rw [hnext] at h
      have hfirst :=
        Sequence.length_print_le (hsequences s List.mem_cons_self) hnext
      have hrest := ih (fun r hr => hsequences r (List.mem_cons_of_mem s hr)) h
      simp only [List.flatMap_cons, List.length_append]
      omega

/-- What a block expands to stays within the limit. -/
theorem size_le_of_expand {limit : Nat} {b : Block} {text : Array UInt8}
    (h : b.expand limit = .ok text) : text.size ≤ limit := by
  obtain ⟨stop, -, h⟩ := exists_of_bind_eq_ok h
  by_cases hlong : limit < stop.size + b.final.length
  · rw [if_pos hlong] at h
    cases h
  · rw [if_neg hlong] at h
    cases h
    rw [size_appendList]
    exact Nat.le_of_not_lt hlong

/-- A block is hardly longer than its text. -/
theorem length_print_le {limit : Nat} {b : Block} {text : Array UInt8}
    (hb : ∀ s ∈ b.sequences, s.Printable) (h : b.expand limit = .ok text) :
    255 * b.print.length ≤ 256 * text.size + 495 := by
  have hfinal := (length_continuation_le b.final.length).1
  unfold Block.expand at h
  cases hrun : b.sequences.foldlM (Sequence.expand limit) #[] with
  | error cause =>
    rw [hrun] at h
    cases h
  | ok stop =>
    have hbefore := length_flatMap_print_le hb hrun
    simp only [hrun, bind, Except.bind] at h
    split at h
    · cases h
    · cases h
      simp only [Block.print, List.length_append, List.length_cons,
        size_appendList, List.size_toArray, List.length_nil] at hbefore ⊢
      omega

end ChunkStream.Lz4
