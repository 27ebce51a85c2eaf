import ChunkStream.Proofs.Bytes.Fields
import ChunkStream.Proofs.Store.Artifact

/-!
# The format of artifacts

An image is what the format calls a complete artifact: its fields one after
another, each said by width and value alone.  The reader accepts bytes exactly
when they begin with an image, and answers with what the image says.  An image
is also what the writer would write for its artifact, from which it follows that
bytes begin with at most one image: no image goes on into a longer one, and what
comes after an image is never looked at.
-/

namespace ChunkStream

open Bytes

/-! ## Images -/

/-- A coordinate as bytes: three words in two's complement. -/
inductive Coord.Image : Coord → List UInt8 → Prop
  | mk {c : Coord} {x y z : List UInt8} (hx : Field 4 c.x.toUInt32.toNat x)
      (hy : Field 4 c.y.toUInt32.toNat y) (hz : Field 4 c.z.toUInt32.toNat z) :
      Image c (x ++ y ++ z)

/-- The number of a completion tag. -/
def Completion.number : Completion → Nat
  | incomplete => 0
  | complete => 1

/-- A record as bytes: the coordinate, the number of the tag, the length of the
payload and the payload. -/
inductive Record.Image : Record → List UInt8 → Prop
  | mk {c : Coord} {completion : Completion}
      {payload key tag size : List UInt8} (hkey : c.Image key)
      (htag : Field 4 completion.number tag)
      (hsize : Field 8 payload.length size) :
      Image ⟨c, ⟨completion, payload⟩⟩ (key ++ tag ++ size ++ payload)

/-- Records as bytes, one after another. -/
inductive Record.Images : List Record → List UInt8 → Prop
  | nil : Images [] []
  | cons {r : Record} {rs : List Record} {p q : List UInt8}
      (hfirst : r.Image p) (hrest : Images rs q) : Images (r :: rs) (p ++ q)

/-- An artifact as bytes: the version, the number of records and so many
records. -/
inductive Artifact.Image : Artifact → List UInt8 → Prop
  | mk {version : Nat} {records : List Record} {first count p : List UInt8}
      (hversion : Field 4 version first)
      (hcount : Field 8 records.length count)
      (hrecords : Record.Images records p) :
      Image ⟨version, records⟩ (first ++ count ++ p)

/-! ## The reader finds images only -/

theorem toNat_toUInt32_ofNat {n : Nat} (h : n < capacity 4) :
    (Int32.ofNat n).toUInt32.toNat = n := by
  have hn : n < 4294967296 := h
  show (BitVec.ofNat 32 n).toNat = n
  rw [BitVec.toNat_ofNat]
  exact Nat.mod_eq_of_lt hn

theorem exists_field_of_decodeWord {w : Int32} {bytes rest : List UInt8}
    (h : decodeWord bytes = some (w, rest)) :
    ∃ field, Field 4 w.toUInt32.toNat field ∧ bytes = field ++ rest := by
  obtain ⟨⟨n, rest'⟩, hread, hpure⟩ := Option.bind_eq_some_iff.1 h
  cases hpure
  obtain ⟨field, hfield, hbytes⟩ := exists_field_of_decodeNat hread
  refine ⟨field, ?_, hbytes⟩
  rw [toNat_toUInt32_ofNat hfield.lt]
  exact hfield

theorem Coord.exists_image_of_decode {c : Coord} {bytes rest : List UInt8}
    (h : Payload.decodeCoord bytes = some (c, rest)) :
    ∃ p, c.Image p ∧ bytes = p ++ rest := by
  obtain ⟨⟨x, bytes₁⟩, hx, h⟩ := Option.bind_eq_some_iff.1 h
  obtain ⟨⟨y, bytes₂⟩, hy, h⟩ := Option.bind_eq_some_iff.1 h
  obtain ⟨⟨z, bytes₃⟩, hz, h⟩ := Option.bind_eq_some_iff.1 h
  cases h
  obtain ⟨p, hp, rfl⟩ := exists_field_of_decodeWord hx
  obtain ⟨q, hq, rfl⟩ := exists_field_of_decodeWord hy
  obtain ⟨r, hr, rfl⟩ := exists_field_of_decodeWord hz
  exact ⟨p ++ q ++ r, .mk hp hq hr, by simp only [List.append_assoc]⟩

namespace Record

theorem exists_field_of_decodeCompletion {completion : Completion}
    {bytes rest : List UInt8}
    (h : decodeCompletion bytes = some (completion, rest)) :
    ∃ tag, Field 4 completion.number tag ∧ bytes = tag ++ rest := by
  unfold decodeCompletion at h
  split at h
  · next hread =>
    cases h
    exact exists_field_of_decodeNat hread
  · next hread =>
    cases h
    exact exists_field_of_decodeNat hread
  · cases h

theorem exists_image_of_decode {r : Record} {bytes rest : List UInt8}
    (h : decode bytes = some (r, rest)) :
    ∃ p, r.Image p ∧ bytes = p ++ rest := by
  obtain ⟨⟨c, bytes₁⟩, hcoord, h⟩ := Option.bind_eq_some_iff.1 h
  obtain ⟨⟨completion, bytes₂⟩, htag, h⟩ := Option.bind_eq_some_iff.1 h
  obtain ⟨⟨n, bytes₃⟩, hsize, h⟩ := Option.bind_eq_some_iff.1 h
  obtain ⟨⟨payload, bytes₄⟩, hpayload, h⟩ := Option.bind_eq_some_iff.1 h
  cases h
  obtain ⟨key, hkey, rfl⟩ := Coord.exists_image_of_decode hcoord
  obtain ⟨tag, htagfield, rfl⟩ := exists_field_of_decodeCompletion htag
  obtain ⟨size, hsizefield, rfl⟩ := exists_field_of_decodeNat hsize
  obtain ⟨hlength, rfl⟩ := exists_split_of_splitExactly hpayload
  subst hlength
  exact ⟨key ++ tag ++ size ++ payload, .mk hkey htagfield hsizefield,
    by simp only [List.append_assoc]⟩

theorem exists_images_of_decodeMany {n : Nat} {done rs : List Record}
    {bytes rest : List UInt8}
    (h : decodeMany n done bytes = some (rs, rest)) :
    ∃ new p, rs = done.reverse ++ new ∧ new.length = n ∧ Images new p
      ∧ bytes = p ++ rest := by
  induction n generalizing done bytes with
  | zero =>
    cases h
    exact ⟨[], [], (List.append_nil _).symm, rfl, .nil, rfl⟩
  | succ n ih =>
    simp only [decodeMany] at h
    split at h
    · cases h
    · next r bytes' hfirst =>
      obtain ⟨p, hp, rfl⟩ := exists_image_of_decode hfirst
      obtain ⟨new, q, hrs, hlength, hq, rfl⟩ := ih h
      refine ⟨r :: new, p ++ q, ?_, by rw [List.length_cons, hlength],
        .cons hp hq, (List.append_assoc p q rest).symm⟩
      rw [hrs, List.reverse_cons, List.append_assoc, List.singleton_append]

end Record

theorem Artifact.exists_image_of_decode {a : Artifact} {bytes : List UInt8}
    (h : decode bytes = some a) : ∃ p, a.Image p ∧ p <+: bytes := by
  obtain ⟨⟨version, bytes₁⟩, hversion, h⟩ := Option.bind_eq_some_iff.1 h
  obtain ⟨⟨n, bytes₂⟩, hcount, h⟩ := Option.bind_eq_some_iff.1 h
  obtain ⟨⟨records, rest⟩, hrecords, h⟩ := Option.bind_eq_some_iff.1 h
  cases h
  obtain ⟨first, hfirst, rfl⟩ := exists_field_of_decodeNat hversion
  obtain ⟨count, hcountfield, rfl⟩ := exists_field_of_decodeNat hcount
  obtain ⟨new, p, hnew, rfl, hp, rfl⟩ :=
    Record.exists_images_of_decodeMany hrecords
  obtain rfl : records = new := hnew
  exact ⟨first ++ count ++ p, .mk hfirst hcountfield hp, rest,
    by simp only [List.append_assoc]⟩

/-! ## An image is what the writer writes -/

theorem Coord.Image.encode_eq {c : Coord} {p : List UInt8} (h : c.Image p) :
    Payload.encodeCoord c = p := by
  cases h with
  | mk hx hy hz =>
    simp only [Payload.encodeCoord, encodeWord, hx.encode_eq, hy.encode_eq,
      hz.encode_eq]

theorem Completion.encode_eq {completion : Completion} {p : List UInt8}
    (h : Field 4 completion.number p) :
    Record.encodeCompletion completion = p := by
  rw [← h.encode_eq]
  cases completion <;> rfl

namespace Record

theorem Image.encode_eq {r : Record} {p : List UInt8} (h : r.Image p) :
    r.encode = p ∧ r.stored.payload.length < Size.limit := by
  cases h with
  | mk hkey htag hsize =>
    refine ⟨?_, hsize.lt⟩
    simp only [encode, hkey.encode_eq, Completion.encode_eq htag,
      hsize.encode_eq]

theorem Images.encode_eq {rs : List Record} {p : List UInt8}
    (h : Images rs p) :
    rs.flatMap encode = p
      ∧ ∀ r ∈ rs, r.stored.payload.length < Size.limit := by
  induction h with
  | nil => exact ⟨rfl, fun r hr => absurd hr List.not_mem_nil⟩
  | @cons r rs p q hfirst _ ih =>
    obtain ⟨hp, hsize⟩ := hfirst.encode_eq
    refine ⟨by rw [List.flatMap_cons, hp, ih.1], ?_⟩
    intro r' hr'
    rcases List.mem_cons.1 hr' with rfl | hr'
    · exact hsize
    · exact ih.2 r' hr'

end Record

namespace Artifact

theorem Image.encode_eq {a : Artifact} {p : List UInt8} (h : a.Image p) :
    a.encode = p ∧ a.Encodable := by
  cases h with
  | mk hversion hcount hrecords =>
    obtain ⟨hencode, hpayloads⟩ := hrecords.encode_eq
    refine ⟨?_, hversion.lt, hcount.lt, hpayloads⟩
    simp only [encode, hversion.encode_eq, hcount.encode_eq, hencode]

theorem decode_of_image {a : Artifact} {p : List UInt8} (h : a.Image p)
    (rest : List UInt8) : decode (p ++ rest) = some a := by
  obtain ⟨hp, ha⟩ := h.encode_eq
  rw [← hp]
  exact decode_encode ha rest

/-- The reader answers with the artifact of the image that comes first. -/
theorem decode_eq_some_iff {a : Artifact} {bytes : List UInt8} :
    decode bytes = some a ↔ ∃ p, a.Image p ∧ p <+: bytes := by
  constructor
  · exact exists_image_of_decode
  · rintro ⟨p, hp, rest, rfl⟩
    exact decode_of_image hp rest

theorem decode_eq_none_iff {bytes : List UInt8} :
    decode bytes = none ↔ ∀ (a : Artifact) (p : List UInt8), a.Image p →
      ¬p <+: bytes := by
  rw [Option.eq_none_iff_forall_ne_some]
  constructor
  · intro h a p hp hprefix
    exact h a (decode_eq_some_iff.2 ⟨p, hp, hprefix⟩)
  · intro h a ha
    obtain ⟨p, hp, hprefix⟩ := decode_eq_some_iff.1 ha
    exact h a p hp hprefix

/-- Bytes begin with one image at most. -/
theorem Image.unique {a b : Artifact} {p q bytes : List UInt8}
    (ha : a.Image p) (hb : b.Image q) (hp : p <+: bytes) (hq : q <+: bytes) :
    a = b ∧ p = q := by
  have hdecode : some a = some b :=
    (decode_eq_some_iff.2 ⟨p, ha, hp⟩).symm.trans
      (decode_eq_some_iff.2 ⟨q, hb, hq⟩)
  obtain rfl : a = b := Option.some.inj hdecode
  exact ⟨rfl, ha.encode_eq.1.symm.trans hb.encode_eq.1⟩

/-- No image goes on into a longer one. -/
theorem Image.not_prefix {a : Artifact} {p q : List UInt8} (ha : a.Image p)
    (hq : q <+: p) (hne : q ≠ p) (b : Artifact) (r : List UInt8)
    (hb : b.Image r) : ¬r <+: q := by
  intro hr
  obtain ⟨-, rfl⟩ := ha.unique hb (List.prefix_refl p) (hr.trans hq)
  exact hne (hq.eq_of_length_le hr.length_le)

end Artifact

/-! ## Sizes that the bytes do not bear out -/

theorem Coord.Image.length {c : Coord} {p : List UInt8} (h : c.Image p) :
    p.length = 12 := by
  rw [← h.encode_eq, Payload.length_encodeCoord]

namespace Record

theorem Image.length {r : Record} {p : List UInt8} (h : r.Image p) :
    p.length = 24 + r.stored.payload.length := by
  cases h with
  | mk hkey htag hsize =>
    simp only [List.length_append, hkey.length, htag.length, hsize.length]

theorem Images.length_le {rs : List Record} {p : List UInt8}
    (h : Images rs p) : 24 * rs.length ≤ p.length := by
  induction h with
  | nil => exact Nat.zero_le _
  | cons hfirst _ ih =>
    have hlength := hfirst.length
    simp only [List.length_cons, List.length_append]
    omega

/-- A record whose payload is cut short is not read. -/
theorem decode_eq_none_of_short {n : Nat} {header size rest : List UInt8}
    (hheader : header.length = 16) (hsize : Field 8 n size)
    (hshort : rest.length < n) : decode (header ++ size ++ rest) = none := by
  rw [Option.eq_none_iff_forall_ne_some]
  rintro ⟨r, left⟩ hread
  obtain ⟨p, hp, hbytes⟩ := exists_image_of_decode hread
  cases hp with
  | @mk c completion payload key tag size' hkey htag hsize' =>
    -- key and tag take the same sixteen bytes, so the two sizes are one field
    have hhead : header.length = (key ++ tag).length := by
      rw [List.length_append, hkey.length, htag.length, hheader]
    simp only [List.append_assoc] at hbytes
    rw [← List.append_assoc key] at hbytes
    obtain ⟨-, hbytes⟩ := List.append_inj hbytes hhead
    obtain ⟨rfl, rfl⟩ := List.append_inj hbytes
      (hsize.length.trans hsize'.length.symm)
    have hn : payload.length = n := hsize'.value.symm.trans hsize.value
    rw [List.length_append] at hshort
    omega

theorem decodeMany_of_images {rs : List Record} {p : List UInt8}
    (h : Images rs p) (n : Nat) (done : List Record) (rest : List UInt8) :
    decodeMany (rs.length + n) done (p ++ rest)
      = decodeMany n (rs.reverse ++ done) rest := by
  induction h generalizing done with
  | nil => rw [List.length_nil, Nat.zero_add]; rfl
  | @cons r rs p q hfirst _ ih =>
    obtain ⟨hp, hsize⟩ := hfirst.encode_eq
    have hread := decode_encode hsize (q ++ rest)
    rw [hp] at hread
    rw [List.length_cons, Nat.add_right_comm, List.append_assoc, decodeMany,
      hread]
    simp only [ih, List.reverse_cons, List.append_assoc, List.singleton_append]

end Record

namespace Artifact

variable {version n : Nat} {first count : List UInt8}

/-- Each record takes 24 bytes and its payload. -/
theorem decode_eq_none_of_count (hfirst : Field 4 version first)
    (hcount : Field 8 n count) {rest : List UInt8}
    (hshort : rest.length < 24 * n) :
    decode (first ++ count ++ rest) = none := by
  rw [Option.eq_none_iff_forall_ne_some]
  intro a ha
  obtain ⟨p, hp, left, hbytes⟩ := exists_image_of_decode ha
  cases hp with
  | @mk version' records first' count' q hfirst' hcount' hrecords =>
    simp only [List.append_assoc] at hbytes
    obtain ⟨-, htail⟩ := List.append_inj hbytes
      (hfirst'.length.trans hfirst.length.symm)
    obtain ⟨rfl, rfl⟩ := List.append_inj htail
      (hcount'.length.trans hcount.length.symm)
    have hn : records.length = n := hcount'.value.symm.trans hcount.value
    have hlength := hrecords.length_le
    rw [List.length_append] at hshort
    omega

theorem decode_eq_none_of_payload (hfirst : Field 4 version first)
    (hcount : Field 8 n count) {done : List Record} {p : List UInt8}
    (hdone : Record.Images done p) (hmore : done.length < n) {length : Nat}
    {header size rest : List UInt8} (hheader : header.length = 16)
    (hsize : Field 8 length size) (hshort : rest.length < length) :
    decode (first ++ count ++ (p ++ (header ++ size ++ rest))) = none := by
  obtain ⟨k, hk⟩ := Nat.exists_eq_add_of_lt hmore
  have hmany := Record.decodeMany_of_images hdone (k + 1) []
    (header ++ size ++ rest)
  rw [← Nat.add_assoc, ← hk, Record.decodeMany,
    Record.decode_eq_none_of_short hheader hsize hshort] at hmany
  rw [List.append_assoc]
  simp only [decode, decodeNat_of_field hfirst, decodeNat_of_field hcount,
    hmany, bind, Option.bind]

end Artifact

/-! ## What is loaded -/

namespace FarStore

/-- Loading the bytes fails because they hold no whole artifact. -/
def Unreadable (bytes : List UInt8) : Prop :=
  ∃ reason, load bytes = .error (.encode reason)

/-- An open store with the last record of each coordinate, which has taken
nothing yet. -/
structure Restored (records : List Record) (s : FarStore) : Prop where
  entry : ∀ c, Table.get? s.entries c
    = (Table.latest? Record.coord records c).map Record.stored
  keys : (Table.keys s.entries).Nodup
  puts : s.puts = 0
  opened : s.closed = false

theorem restored_ofRecords (records : List Record) :
    Restored records (ofRecords records) where
  entry := Table.get?_foldl_insert Record.coord Record.stored records
  keys := Table.nodup_keys_foldl_insert Record.coord Record.stored records
  puts := rfl
  opened := rfl

theorem unreadable_iff {bytes : List UInt8} :
    Unreadable bytes ↔ Artifact.decode bytes = none := by
  unfold Unreadable load
  cases Artifact.decode bytes with
  | none => exact ⟨fun _ => rfl, fun _ => ⟨_, rfl⟩⟩
  | some a =>
    by_cases hversion : a.version = formatVersion
    · simp [hversion]
    · simp [hversion]

theorem load_of_decode {bytes : List UInt8} {a : Artifact}
    (h : Artifact.decode bytes = some a) :
    load bytes = if a.version = formatVersion then .ok (ofRecords a.records)
      else .error (.versionMismatch a.version) := by
  simp only [load, h]

theorem eq_ofRecords_of_load {bytes : List UInt8} {a : Artifact}
    {s : FarStore} (hdecode : Artifact.decode bytes = some a)
    (hload : load bytes = .ok s) : s = ofRecords a.records := by
  rw [load_of_decode hdecode] at hload
  split at hload
  · exact (Except.ok.inj hload).symm
  · cases hload

/-- Loading accepts exactly what begins with an image, and answers with what
that image says.  There is one such image, so that what follows it is never
looked at; an image that is cut short is refused, and so are sizes beyond the
bytes that are left. -/
theorem load_accepts_exactly_images :
    (∀ bytes : List UInt8,
      (Unreadable bytes ↔ ∀ (a : Artifact) (p : List UInt8), a.Image p →
        ¬p <+: bytes)
      ∧ ∀ (a : Artifact) (p : List UInt8), a.Image p → p <+: bytes →
        (a.version ≠ 1 → load bytes = .error (.versionMismatch a.version))
        ∧ (a.version = 1 → ∃ s, load bytes = .ok s ∧ Restored a.records s)
        ∧ (∀ (b : Artifact) (q : List UInt8), b.Image q → q <+: bytes →
          b = a ∧ q = p)
        ∧ load bytes = load p
        ∧ ∀ q, q <+: p → q ≠ p → Unreadable q)
    ∧ ∀ (version n : Nat) (first count : List UInt8), Field 4 version first →
      Field 8 n count →
        (∀ rest : List UInt8, rest.length < 24 * n →
          Unreadable (first ++ count ++ rest))
        ∧ ∀ (done : List Record) (p header size rest : List UInt8)
          (length : Nat), Record.Images done p → done.length < n →
          header.length = 16 → Field 8 length size → rest.length < length →
          Unreadable (first ++ count ++ (p ++ (header ++ size ++ rest))) := by
  refine ⟨fun bytes => ⟨unreadable_iff.trans Artifact.decode_eq_none_iff, ?_⟩,
    ?_⟩
  · intro a p hp hprefix
    have hdecode := Artifact.decode_eq_some_iff.2 ⟨p, hp, hprefix⟩
    have halone := Artifact.decode_eq_some_iff.2 ⟨p, hp, List.prefix_refl p⟩
    refine ⟨fun hversion => ?_, fun hversion => ?_, fun b q hq hqprefix => ?_,
      ?_, fun q hq hne => ?_⟩
    · rw [load_of_decode hdecode]
      exact if_neg hversion
    · refine ⟨ofRecords a.records, ?_, restored_ofRecords a.records⟩
      rw [load_of_decode hdecode]
      exact if_pos hversion
    · exact hq.unique hp hqprefix hprefix
    · rw [load_of_decode hdecode, load_of_decode halone]
    · exact unreadable_iff.2
        (Artifact.decode_eq_none_iff.2 (hp.not_prefix hq hne))
  · intro version n first count hfirst hcount
    refine ⟨fun rest hshort => ?_, ?_⟩
    · exact unreadable_iff.2
        (Artifact.decode_eq_none_of_count hfirst hcount hshort)
    · intro done p header size rest length hdone hmore hheader hsize hshort
      exact unreadable_iff.2 (Artifact.decode_eq_none_of_payload hfirst hcount
        hdone hmore hheader hsize hshort)

end FarStore

end ChunkStream
