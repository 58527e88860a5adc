/-
# Header fields kept as text

Header fields are stored in their normal form, a map of texts. They come back with the same values
in the same order under every name, each as it is read from text, so that values that spell text
come back octet by octet. A map of texts that is no normal form becomes one the first time that it
is read as fields, and stays as it is from then on.

Main statements: `Headers.normalize_ofMap_normalize`, `Store.putHeaders_eq`,
`Store.fields_survive_normal_form`.
-/
import EvalProxy.Proofs.Cache.Merge
import EvalProxy.Proofs.Http.NormalForm
namespace EvalProxy

namespace Headers

/-! ## Values that spell text -/

/-- A value that spells text is read back as it is. -/
theorem readable_of_isSome_decode? {v : Bytes} (h : (Text.decode? v).isSome = true) :
    readable v = v := by
  obtain ⟨s, hs⟩ := Option.isSome_iff_exists.1 h
  rw [← Text.encode_of_decode? hs, readable, Text.lossy_encode]

/-- Values that are readable already are left as they are. -/
theorem map_readable {vs : List Bytes} (h : ∀ v ∈ vs, readable v = v) : vs.map readable = vs :=
  (List.map_congr_left h).trans (List.map_id vs)

/-- The octets of a text are readable as they stand. -/
theorem readable_encode (s : String) : readable (Text.encode s) = Text.encode s := by
  rw [readable, Text.lossy_encode]

/-- The values of a name stand in one of the fields. -/
theorem exists_field_of_mem_values {h : Headers} {name : String} {v : Bytes}
    (hv : v ∈ h.values name) : ∃ f ∈ h, v ∈ f.2 := by
  rw [values_eq_get?] at hv
  cases hget : Assoc.get? name h with
  | none => simp [hget] at hv
  | some vs =>
    rw [hget] at hv
    exact ⟨(name, vs), Assoc.mem_of_get? hget, hv⟩

/-- Every value that comes out of a normal form spells text. -/
theorem readable_of_mem_values_ofMap {map : Dict String} {name : String} {v : Bytes}
    (hv : v ∈ (ofMap map).values name) : readable v = v := by
  rw [values_ofMap] at hv
  obtain ⟨e, -, hv⟩ := List.mem_flatMap.1 hv
  rw [entryValues] at hv
  split at hv
  · obtain ⟨cs, -, rfl⟩ := List.mem_map.1 (List.mem_filter.1 hv).1
    exact readable_encode _
  · cases hv

/-! ## Fields with the same values -/

/-- Under filled fields, the values of a name tell whether it stands there. -/
theorem get?_eq_of_filled {h : Headers} (hfilled : h.Filled) (name : String) :
    Assoc.get? name h = if h.values name = [] then none else some (h.values name) := by
  rw [values_eq_get?]
  cases hget : Assoc.get? name h with
  | none => rfl
  | some vs =>
    have hvs : vs ≠ [] := hfilled (name, vs) (Assoc.mem_of_get? hget)
    simp [hvs]

/-- The normal form depends on the values of each name only, and not on the order of the names. -/
theorem normalize_congr {h h' : Headers} (hproper : h.Proper) (hproper' : h'.Proper)
    (hvalues : ∀ name, h.values name = h'.values name) : h.normalize = h'.normalize := by
  refine Dict.ext_get? fun name => ?_
  rw [get?_normalize hproper.distinct, get?_normalize hproper'.distinct,
    get?_eq_of_filled hproper.filled, get?_eq_of_filled hproper'.filled, hvalues]

/-- **Reading a map of texts as fields makes it a normal form**, which it stays. -/
theorem normalize_ofMap_normalize (map : Dict String) :
    (ofMap (ofMap map).normalize).normalize = (ofMap map).normalize := by
  refine normalize_congr (proper_ofMap _) (proper_ofMap map) fun name => ?_
  rw [values_ofMap_normalize (proper_ofMap map)]
  exact map_readable fun v hv => readable_of_mem_values_ofMap hv

end Headers

namespace Cache.Store

/-! ## The way through the store -/

/-- **Stored fields are read back in their normal form**, from wherever they can be written and
read. -/
theorem putHeaders_eq {s : Store} {key : String} (htakes : s.takes .headers key = true)
    (hreads : s.faults.reads .headers key = false) (h : Headers) :
    ∃ s', s.putHeaders key h = .ok s' ∧ s'.getHeaders key = .ok (some h.normalize) := by
  obtain ⟨s', hput⟩ : ∃ s', s.putHeaders key h = .ok s' :=
    ⟨_, (put_eq s .headers key _).trans (if_pos htakes)⟩
  refine ⟨s', hput, ?_⟩
  have hvalue : s'.get .headers key
      = .ok (some (Text.encode (headersJson h.normalize).compact)) := by
    rw [get_put hput, hreads]
    simp
  rw [getHeaders, hvalue]
  simp only [bind, Except.bind, decodeHeaders_encode]

/-- **Header fields survive their normal form.** The fields of a message come back with the same
values in the same order under every name, none lost, merged or split: each value octet by octet if
it spells text, and with a replacement for what does not otherwise. So they do through the store, if
it takes them and gives them back. Reading any map of texts as fields gives a normal form, which
does not change when it is read again. -/
theorem fields_survive_normal_form :
    (∀ h : Headers, h.Proper →
      (∀ name, (Headers.ofMap h.normalize).values name = (h.values name).map Headers.readable) ∧
      ((∀ f ∈ h, ∀ v ∈ f.2, (Text.decode? v).isSome = true) →
        ∀ name, (Headers.ofMap h.normalize).values name = h.values name) ∧
      ∀ (s : Store) (key : String), s.takes .headers key = true →
        s.faults.reads .headers key = false →
        ∃ s', s.putHeaders key h = .ok s' ∧ s'.getHeaders key = .ok (some h.normalize)) ∧
    ∀ map : Dict String,
      (Headers.ofMap (Headers.ofMap map).normalize).normalize = (Headers.ofMap map).normalize := by
  refine ⟨fun h hproper => ⟨fun name => Headers.values_ofMap_normalize hproper name, ?_,
    fun s key htakes hreads => putHeaders_eq htakes hreads h⟩, Headers.normalize_ofMap_normalize⟩
  intro htext name
  rw [Headers.values_ofMap_normalize hproper]
  refine Headers.map_readable fun v hv => ?_
  obtain ⟨f, hf, hv⟩ := Headers.exists_field_of_mem_values hv
  exact Headers.readable_of_isSome_decode? (htext f hf v hv)

/-- A cookie set three times, once to nothing and once to an octet that spells no text, comes back
with a replacement for that octet; without that octet it comes back as it was. -/
theorem fields_survive_normal_form_cookies :
    let cookies (last : Bytes) : Headers :=
      [("set-cookie", [Text.encode "a=1", [], last]), ("x-note", [Text.encode "é"])]
    (cookies [0xFF]).Proper ∧ (cookies [0x62]).Proper ∧
      (Headers.ofMap (cookies [0xFF]).normalize).values "set-cookie"
        = [Text.encode "a=1", [], Text.encode "\uFFFD"] ∧
      (∀ name, (Headers.ofMap (cookies [0x62]).normalize).values name
        = (cookies [0x62]).values name) ∧
      ∃ s', Store.empty.putHeaders "k" (cookies [0xFF]) = .ok s' ∧
        s'.getHeaders "k" = .ok (some (cookies [0xFF]).normalize) := by
  intro cookies
  have hproper (last : Bytes) (hlast : Headers.isValue last = true) : (cookies last).Proper := by
    have hnote : Headers.Proper [("x-note", [Text.encode "é"])] :=
      Headers.proper_cons.2 ⟨by decide +kernel, by simp, by simp, by decide +kernel,
        Headers.proper_nil⟩
    refine Headers.proper_cons.2 ⟨by decide +kernel, by simp, by simp, ?_, hnote⟩
    simp only [List.forall_mem_cons]
    exact ⟨by decide +kernel, by decide, hlast, by simp⟩
  have hodd := hproper [0xFF] (by decide)
  have hplain := hproper [0x62] (by decide)
  refine ⟨hodd, hplain, ?_, (fields_survive_normal_form.1 _ hplain).2.1 ?_,
    (fields_survive_normal_form.1 _ hodd).2.2 .empty "k" rfl rfl⟩
  · rw [(fields_survive_normal_form.1 _ hodd).1]
    decide +kernel
  · decide +kernel

end Cache.Store

end EvalProxy
