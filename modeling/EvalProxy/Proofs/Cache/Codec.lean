/-
# Exports read back

Every part of the binary form says how long it is, so that a reader takes exactly what the writer
wrote and leaves what follows. An export is read back from its binary form, whatever stands behind
it, as long as all lengths fit into eight octets and the version into four.

Main definitions: `Reads`, `RendersDict`, `Export.Renders`, `Export.Fits`.
Main statements: `Export.reads`, `Export.decode?_encode`.
-/
import EvalProxy.Cache.Export
import EvalProxy.Proofs.Dict
import Mathlib.Algebra.Ring.Nat
namespace EvalProxy.Cache

/-- A reader takes octets from the front, makes a value of them and leaves the rest. -/
def Reads {α : Type} (read : Reader α) (octets : Bytes) (a : α) : Prop :=
  ∀ rest, read (octets ++ rest) = some (a, rest)

/-! ## Numbers -/

theorem length_littleEndian (width n : Nat) : (littleEndian width n).length = width := by
  induction width generalizing n with
  | zero => rfl
  | succ width ih => rw [littleEndian, List.length_cons, ih]

/-- A number that fits its width is read back from its octets. -/
theorem ofLittleEndian_littleEndian {width n : Nat} (h : n < 256 ^ width) :
    ofLittleEndian (littleEndian width n) = n := by
  induction width generalizing n with
  | zero =>
    rw [Nat.pow_zero, Nat.lt_one_iff] at h
    rw [h]
    rfl
  | succ width ih =>
    have hrest : n / 256 < 256 ^ width := by
      rw [Nat.div_lt_iff_lt_mul (by decide), ← Nat.pow_succ]
      exact h
    have hoctet : (UInt8.ofNat (n % 256)).toNat = n % 256 := by
      rw [UInt8.toNat_ofNat']
      omega
    rw [littleEndian, ofLittleEndian, ih hrest, hoctet]
    omega

/-- Taking as many octets as there are gives them all. -/
theorem reads_takeBytes (octets : Bytes) : Reads (takeBytes octets.length) octets octets := by
  intro rest
  rw [takeBytes, if_pos (by simp), List.take_left, List.drop_left]

/-- A number that fits its width is read back, whatever follows it. -/
theorem reads_readNumber {width n : Nat} (h : n < 256 ^ width) :
    Reads (readNumber width) (littleEndian width n) n := by
  intro rest
  have htake := reads_takeBytes (littleEndian width n) rest
  rw [length_littleEndian] at htake
  rw [readNumber, htake]
  show some (ofLittleEndian (littleEndian width n), rest) = _
  rw [ofLittleEndian_littleEndian h]

/-! ## Octets and texts -/

/-- The length of octets fits into eight octets. -/
def Short (octets : Bytes) : Prop := octets.length < 2 ^ 64

/-- Octets behind their length are read back, whatever follows them. -/
theorem reads_readBytes {octets : Bytes} (h : Short octets) :
    Reads readBytes (encodeBytes octets) octets := by
  intro rest
  have hlength : Reads (readNumber 8) (encodeLength octets.length) octets.length :=
    reads_readNumber h
  rw [readBytes, encodeBytes, List.append_assoc, hlength]
  exact reads_takeBytes octets rest

/-- A text behind its length is read back, whatever follows it. -/
theorem reads_readText {s : String} (h : Short (Text.encode s)) :
    Reads readText (encodeText s) s := by
  intro rest
  rw [readText, encodeText, reads_readBytes h rest]
  show (Text.decode? (Text.encode s) >>= fun s => some (s, rest)) = _
  rw [Text.decode?_encode]
  rfl

/-- A text takes eight octets at least. -/
theorem eight_le_encodeText (s : String) : 8 ≤ (encodeText s).length := by
  rw [encodeText, encodeBytes, encodeLength, List.length_append, length_littleEndian]
  exact Nat.le_add_right 8 _

/-! ## Maps -/

section

variable {α : Type}

/-- Octets are entries one after the other: each a text, its key, and the octets of its value. -/
inductive RendersEntries (renders : α → Bytes → Prop) : List (String × α) → Bytes → Prop
  | nil : RendersEntries renders [] []
  | cons {key : String} {a : α} {octets rest : Bytes} {entries : List (String × α)} :
      Short (Text.encode key) → renders a octets → RendersEntries renders entries rest →
      RendersEntries renders ((key, a) :: entries) (encodeText key ++ (octets ++ rest))

/-- Octets are a map: the number of some entries and these entries, in any order; of several at one
key the last counts. -/
def RendersDict (renders : α → Bytes → Prop) (d : Dict α) (octets : Bytes) : Prop :=
  ∃ entries more, entries.length < 2 ^ 64 ∧ RendersEntries renders entries more ∧
    d = Dict.ofList entries ∧ octets = encodeLength entries.length ++ more

/-- The number of entries fits into eight octets, and so does each of them. -/
structure Fits (fits : α → Prop) (d : Dict α) : Prop where
  size : d.size < 2 ^ 64
  keys : ∀ e ∈ d.entries, Short (Text.encode e.1)
  values : ∀ e ∈ d.entries, fits e.2

theorem fits_empty (fits : α → Prop) : Fits fits (Dict.empty : Dict α) :=
  ⟨Nat.two_pow_pos 64, List.forall_mem_nil _, List.forall_mem_nil _⟩

variable {renders : α → Bytes → Prop} {read : Reader α} {octets : Bytes}

/-- Entries that are rendered one after another are read back in order. -/
theorem reads_readEntries (hread : ∀ {a octets}, renders a octets → Reads read octets a)
    {entries : List (String × α)} (h : RendersEntries renders entries octets) {fuel : Nat}
    (hfuel : octets.length ≤ fuel) :
    Reads (readEntries read fuel entries.length) octets entries := by
  induction h generalizing fuel with
  | nil =>
    intro rest
    cases fuel <;> rfl
  | @cons key a octets more entries hkey hvalue _ ih =>
    intro rest
    -- the key alone takes more octets than the one that an entry costs
    have hlength := eight_le_encodeText key
    rw [List.length_append, List.length_append] at hfuel
    cases fuel with
    | zero => omega
    | succ fuel =>
      have hmore : more.length ≤ fuel := by omega
      have hentries := ih hmore rest
      rw [List.append_assoc, List.append_assoc, List.length_cons, readEntries,
        reads_readText hkey]
      simp only [bind, Option.bind, hread hvalue _, hentries]

/-- A dictionary behind the number of its entries is read back. -/
theorem reads_readDict (hread : ∀ {a octets}, renders a octets → Reads read octets a) {d : Dict α}
    (h : RendersDict renders d octets) : Reads (readDict read) octets d := by
  obtain ⟨entries, more, hcount, hentries, rfl, rfl⟩ := h
  intro rest
  have hsize : Reads (readNumber 8) (encodeLength entries.length) entries.length :=
    reads_readNumber hcount
  have hfuel : more.length ≤ (more ++ rest).length := by
    rw [List.length_append]
    exact Nat.le_add_right _ _
  rw [List.append_assoc, readDict, hsize]
  simp only [bind, Option.bind, reads_readEntries hread hentries hfuel rest]

/-- A map is written as one. -/
theorem rendersDict_encode {fits : α → Prop} {write : α → Bytes}
    (hwrite : ∀ a, fits a → renders a (write a)) {d : Dict α} (h : Fits fits d) :
    RendersDict renders d (encodeDict write d) := by
  have hentries (entries : List (String × α)) (hkeys : ∀ e ∈ entries, Short (Text.encode e.1))
      (hvalues : ∀ e ∈ entries, fits e.2) :
      RendersEntries renders entries (entries.flatMap fun e => encodeText e.1 ++ write e.2) := by
    induction entries with
    | nil => exact .nil
    | cons e rest ih =>
      obtain ⟨hkey, hkeys⟩ := List.forall_mem_cons.1 hkeys
      obtain ⟨hvalue, hvalues⟩ := List.forall_mem_cons.1 hvalues
      rw [List.flatMap_cons, List.append_assoc]
      exact .cons hkey (hwrite _ hvalue) (ih hkeys hvalues)
  exact ⟨d.entries, _, h.size, hentries _ h.keys h.values, (Dict.ofList_entries d).symm, rfl⟩

end

/-! ## Exports -/

/-- Octets are some octets behind their length. -/
def RendersBytes (value octets : Bytes) : Prop := Short value ∧ octets = encodeBytes value

/-- Octets are a text behind its length. -/
def RendersText (s : String) (octets : Bytes) : Prop :=
  Short (Text.encode s) ∧ octets = encodeText s

/-- Octets are an export: its version and its three maps. -/
def Export.Renders (e : Export) (octets : Bytes) : Prop :=
  ∃ requests responses headers, e.version < 2 ^ 32 ∧
    RendersDict RendersBytes e.requests requests ∧
    RendersDict RendersBytes e.responses responses ∧
    RendersDict (RendersDict RendersText) e.headers headers ∧
    octets = littleEndian 4 e.version ++ (requests ++ (responses ++ headers))

/-- All lengths of an export fit into eight octets, and its version into four. -/
structure Export.Fits (e : Export) : Prop where
  version : e.version < 2 ^ 32
  requests : Cache.Fits Short e.requests
  responses : Cache.Fits Short e.responses
  headers : Cache.Fits (Cache.Fits fun s => Short (Text.encode s)) e.headers

theorem reads_of_rendersBytes {value octets : Bytes} (h : RendersBytes value octets) :
    Reads readBytes octets value := by
  rw [h.2]
  exact reads_readBytes h.1

theorem reads_of_rendersText {s : String} {octets : Bytes} (h : RendersText s octets) :
    Reads readText octets s := by
  rw [h.2]
  exact reads_readText h.1

/-- Every rendering of an export is read back as the export. -/
theorem Export.reads {e : Export} {octets : Bytes} (h : e.Renders octets) :
    Reads readExport octets e := by
  obtain ⟨requests, responses, headers, hfits, hrequests, hresponses, hheaders, rfl⟩ := h
  intro rest
  have hversion : Reads (readNumber 4) (littleEndian 4 e.version) e.version :=
    reads_readNumber hfits
  have hrequests := reads_readDict reads_of_rendersBytes hrequests
  have hresponses := reads_readDict reads_of_rendersBytes hresponses
  have hheaders := reads_readDict (reads_readDict reads_of_rendersText) hheaders
  rw [List.append_assoc, List.append_assoc, List.append_assoc, readExport, hversion]
  simp only [bind, Option.bind, hrequests _, hresponses _, hheaders _]

/-- An export is written as one. -/
theorem Export.renders_encode {e : Export} (h : e.Fits) : e.Renders e.encode := by
  refine ⟨_, _, _, h.version, rendersDict_encode (fun _ hshort => ⟨hshort, rfl⟩) h.requests,
    rendersDict_encode (fun _ hshort => ⟨hshort, rfl⟩) h.responses,
    rendersDict_encode (fun _ => rendersDict_encode fun _ hshort => ⟨hshort, rfl⟩) h.headers, ?_⟩
  rw [encode, List.append_assoc, List.append_assoc]

/-- **An export is read back from its octets**, whatever follows them. -/
theorem Export.decode?_encode {e : Export} (h : e.Fits) (rest : Bytes) :
    decode? (e.encode ++ rest) = some e := by
  rw [decode?, Export.reads (Export.renders_encode h) rest]
  rfl

end EvalProxy.Cache
