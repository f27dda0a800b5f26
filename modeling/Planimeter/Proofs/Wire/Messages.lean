import Planimeter.Proofs.Wire.Derivation
import Planimeter.Proofs.Wire.RoundTrip
/-!
# Which bytes are messages

The readers of the three messages follow the grammar, field by field: dimensions inside a variant,
variants inside a shape, shapes inside a request, areas inside a response. So exactly the derivable
bytes are decoded, and what they are decoded to are the items of their fields. A submessage counts
as derivable from its own bytes alone; if these are not, then no bytes behind it make up for it.
-/
namespace Planimeter.Wire

variable {depth : Nat} {kind : Kind} {key : Key}

/-- A field that is not known adds nothing. -/
theorem reads_skipField_iff {α β : Type} {add : α → β → α} {Payload : List UInt8 → List β → Prop}
    (h : ∀ payload items, Payload payload items ↔ Skipped depth key payload ∧ items = [])
    {a a' : α} {i : Input} {tail : List UInt8} :
    Reads ((skipField (depthLimit - depth) key i).map fun rest => (a, rest)) a' tail ↔
      ∃ payload items, Payload payload items ∧ i.bytes = payload ++ tail ∧
        a' = items.foldl add a := by
  rw [reads_passing_iff, skipField_iff]
  constructor
  · rintro ⟨⟨payload, hpayload, hi⟩, rfl⟩
    exact ⟨payload, [], (h _ _).2 ⟨hpayload, rfl⟩, hi, rfl⟩
  · rintro ⟨payload, items, hpayload, hi, rfl⟩
    obtain ⟨hskipped, rfl⟩ := (h _ _).1 hpayload
    exact ⟨⟨payload, hskipped, hi⟩, rfl⟩

@[simp] theorem length_fieldNames (kind : Kind) : kind.fieldNames.length = kind.arity := by
  cases kind <;> rfl

theorem dimPayload_unknown_iff (hkey : kind.arity < key.field) {payload : List UInt8}
    {dims : List (Nat × Binary32)} :
    DimPayload depth kind key payload dims ↔ Skipped depth key payload ∧ dims = [] := by
  constructor
  · intro h
    cases h with
    | dim hplace => exact absurd hkey (Nat.not_lt.2 hplace)
    | unknown _ h => exact ⟨h, rfl⟩
  · rintro ⟨h, rfl⟩
    exact .unknown hkey h

theorem mergeDim_follows (hkey : 0 < key.field) :
    Follows (fun s => s.kind = kind) (fun s (d : Nat × Binary32) => s.set d.1 d.2)
      (DimPayload depth kind key) (fun s i => mergeDim (depthLimit - depth) s key i) := by
  rintro s rfl i s' tail
  obtain ⟨field, type⟩ := key
  obtain ⟨place, rfl⟩ := Nat.exists_eq_add_of_le' hkey
  rcases Nat.lt_or_ge place s.kind.arity with hplace | hplace
  · have hname : place < s.kind.fieldNames.length := by rwa [length_fieldNames]
    simp only [mergeDim, Nat.succ_eq_add_one, Nat.add_sub_cancel, List.getElem?_eq_getElem hname]
    rw [reads_within_iff, reads_expectType_iff,
      reads_map_iff (f := fun x => s.set place x) (by exact fun r => ⟨rfl, rfl⟩)]
    simp only [readFloat_iff]
    constructor
    · rintro ⟨rfl, x, ⟨bytes, hdatum, hi⟩, rfl⟩
      exact ⟨bytes, _, .dim hplace hdatum, hi, rfl⟩
    · rintro ⟨bytes, items, hpayload, hi, rfl⟩
      cases hpayload with
      | dim _ hdatum => exact ⟨rfl, _, ⟨bytes, hdatum, hi⟩, rfl⟩
      | unknown hunknown => exact absurd hunknown (Nat.not_lt.2 hplace)
  · have hname : s.kind.fieldNames[place]? = none :=
      List.getElem?_eq_none (by rwa [length_fieldNames])
    simp only [mergeDim, Nat.succ_eq_add_one, Nat.add_sub_cancel, hname]
    exact reads_skipField_iff fun _ _ => dimPayload_unknown_iff (Nat.lt_succ_of_le hplace)

@[simp] theorem ofNumber?_eq_some_iff {n : Nat} :
    Kind.ofNumber? n = some kind ↔ n = kind.number := by
  constructor
  · intro h
    exact (beq_iff_eq.1 (List.find?_some (p := fun k : Kind => k.number == n) h)).symm
  · rintro rfl
    exact ofNumber?_number kind

@[simp] theorem ofNumber?_eq_none_iff {n : Nat} :
    Kind.ofNumber? n = none ↔ ∀ kind : Kind, n ≠ kind.number := by
  simp only [Option.eq_none_iff_forall_ne_some, ne_eq, ofNumber?_eq_some_iff]

@[simp] theorem kind_openVariant (kind : Kind) (m : Option Shape) :
    (openVariant kind m).kind = kind := by
  unfold openVariant
  split
  · split
    · assumption
    · exact Shape.kind_zero kind
  · exact Shape.kind_zero kind

/-- The fields of a variant, with their length in front, set dimensions of a shape of its kind. -/
theorem mergeVariant_follows : Follows (fun s => s.kind = kind)
    (fun s (d : Nat × Binary32) => s.set d.1 d.2) (Delimited (Fields (DimPayload depth kind)))
    (mergeDelimited (fieldStep (mergeDim (depthLimit - depth)))) :=
  mergeDelimited_follows (fieldStep_follows fun _ => mergeDim_follows)
    fun s d hs => by simp [hs]

theorem shapePayload_variant_iff {type : WireType} {payload : List UInt8}
    {variants : List (Kind × List (Nat × Binary32))} :
    ShapePayload depth ⟨kind.number, type⟩ payload variants ↔ type = .delimited ∧
      ∃ dims, Delimited (Fields (DimPayload (depth + 1) kind)) payload dims ∧
        variants = [(kind, dims)] := by
  constructor
  · intro h
    generalize hkey : (⟨kind.number, type⟩ : Key) = key at h
    cases h with
    | variant h =>
      obtain ⟨hnumber, rfl⟩ := Key.mk.inj hkey
      obtain rfl := Option.some.inj
        ((ofNumber?_number _).symm.trans (ofNumber?_eq_some_iff.2 hnumber))
      exact ⟨rfl, _, h, rfl⟩
    | unknown hunknown =>
      subst hkey
      exact absurd rfl (hunknown kind)
  · rintro ⟨rfl, dims, h, rfl⟩
    exact .variant h

theorem shapePayload_unknown_iff (hkey : ∀ kind : Kind, key.field ≠ kind.number)
    {payload : List UInt8} {variants : List (Kind × List (Nat × Binary32))} :
    ShapePayload depth key payload variants ↔ Skipped depth key payload ∧ variants = [] := by
  constructor
  · intro h
    cases h with
    | variant => exact absurd rfl (hkey _)
    | unknown _ h => exact ⟨h, rfl⟩
  · rintro ⟨h, rfl⟩
    exact .unknown hkey h

theorem mergeShape_follows (hdepth : depth < depthLimit) :
    Follows (fun _ => True) addVariant (ShapePayload depth key)
      (fun m i => mergeShape (depthLimit - depth) m key i) := by
  intro m _ i m' tail
  obtain ⟨field, type⟩ := key
  cases hkind : Kind.ofNumber? field with
  | some kind =>
    obtain rfl := ofNumber?_eq_some_iff.1 hkind
    have hbudget : depthLimit - depth ≠ 0 := by omega
    have hmerge (s : Shape) := @mergeVariant_follows (depth + 1) kind _
      (kind_openVariant kind m) i s tail
    simp only [mergeShape, hkind]
    rw [reads_within_iff, reads_expectType_iff, if_neg hbudget, Nat.sub_sub,
      reads_map_iff (f := some) (by exact fun r => ⟨rfl, rfl⟩)]
    simp only [hmerge, shapePayload_variant_iff]
    constructor
    · rintro ⟨rfl, s, ⟨bytes, dims, hdims, hi, rfl⟩, rfl⟩
      exact ⟨bytes, _, ⟨rfl, dims, hdims, rfl⟩, hi, rfl⟩
    · rintro ⟨bytes, items, ⟨rfl, dims, hdims, rfl⟩, hi, rfl⟩
      exact ⟨rfl, _, ⟨bytes, dims, hdims, hi, rfl⟩, rfl⟩
  | none =>
    simp only [mergeShape, hkind]
    exact reads_skipField_iff fun _ _ => shapePayload_unknown_iff (ofNumber?_eq_none_iff.1 hkind)

/-- The fields of a message that holds a shape, with their length in front, add variants. -/
theorem mergeVariants_follows (hdepth : depth < depthLimit) : Follows (fun _ => True) addVariant
    (Delimited (Fields (ShapePayload depth)))
    (mergeDelimited (fieldStep (mergeShape (depthLimit - depth)))) :=
  mergeDelimited_follows (fieldStep_follows fun _ _ => mergeShape_follows hdepth)
    fun _ _ _ => trivial

theorem requestPayload_unknown_iff (hkey : key.field ≠ 1) {payload : List UInt8}
    {shapes : List (Option Shape)} :
    RequestPayload depth key payload shapes ↔ Skipped depth key payload ∧ shapes = [] := by
  constructor
  · intro h
    cases h with
    | shape => exact absurd rfl hkey
    | unknown _ h => exact ⟨h, rfl⟩
  · rintro ⟨h, rfl⟩
    exact .unknown hkey h

theorem mergeRequest_follows (hdepth : depth + 1 < depthLimit) :
    Follows (fun _ => True) Array.push (RequestPayload depth key)
      (fun shapes i => mergeRequest (depthLimit - depth) shapes key i) := by
  intro shapes _ i shapes' tail
  obtain ⟨field, type⟩ := key
  by_cases hfield : field = 1
  · subst hfield
    have hbudget : depthLimit - depth ≠ 0 := by omega
    have hmerge (m : Option Shape) := mergeVariants_follows hdepth none trivial i m tail
    simp only [mergeRequest, if_true]
    rw [reads_within_iff, reads_expectType_iff, if_neg hbudget, Nat.sub_sub,
      reads_map_iff (f := shapes.push) (by exact fun r => ⟨rfl, rfl⟩)]
    simp only [hmerge]
    constructor
    · rintro ⟨rfl, m, ⟨bytes, variants, hvariants, hi, rfl⟩, rfl⟩
      exact ⟨bytes, _, .shape hvariants, hi, rfl⟩
    · rintro ⟨bytes, items, hpayload, hi, rfl⟩
      cases hpayload with
      | shape hvariants => exact ⟨rfl, _, ⟨bytes, _, hvariants, hi, rfl⟩, rfl⟩
      | unknown hunknown => exact absurd rfl hunknown
  · simp only [mergeRequest, if_neg hfield]
    exact reads_skipField_iff fun _ _ => requestPayload_unknown_iff hfield

theorem pushFloat_follows : Follows (fun _ => True) Array.push Datum pushFloat := by
  intro values _ i values' tail
  rw [pushFloat, reads_map_iff (f := values.push) (by exact fun r => ⟨rfl, rfl⟩)]
  simp only [readFloat_iff]
  constructor
  · rintro ⟨x, ⟨bytes, hdatum, hi⟩, rfl⟩
    exact ⟨bytes, [x], hdatum, hi, rfl⟩
  · rintro ⟨bytes, items, ⟨hlength⟩, hi, rfl⟩
    exact ⟨_, ⟨bytes, .mk hlength, hi⟩, rfl⟩

theorem responsePayload_unknown_iff (hkey : key.field ≠ 1) {payload : List UInt8}
    {values : List Binary32} :
    ResponsePayload depth key payload values ↔ Skipped depth key payload ∧ values = [] := by
  constructor
  · intro h
    cases h with
    | single | packed => exact absurd rfl hkey
    | unknown _ h => exact ⟨h, rfl⟩
  · rintro ⟨h, rfl⟩
    exact .unknown hkey h

theorem mergeResponse_follows : Follows (fun _ => True) Array.push (ResponsePayload depth key)
    (fun values i => mergeResponse (depthLimit - depth) values key i) := by
  intro values _ i values' tail
  obtain ⟨field, type⟩ := key
  by_cases hfield : field = 1
  · subst hfield
    simp only [mergeResponse, if_true]
    rw [reads_within_iff]
    by_cases htype : type = .delimited
    · subst htype
      rw [if_pos rfl,
        mergeDelimited_follows pushFloat_follows (fun _ _ _ => trivial) values trivial]
      constructor
      · rintro ⟨bytes, items, hitems, hi, rfl⟩
        exact ⟨bytes, items, .packed hitems, hi, rfl⟩
      · rintro ⟨bytes, items, hpayload, hi, rfl⟩
        cases hpayload with
        | packed hitems => exact ⟨bytes, items, hitems, hi, rfl⟩
        | unknown hunknown => exact absurd rfl hunknown
    · rw [if_neg htype, reads_expectType_iff,
        reads_map_iff (f := id) (by exact fun r => ⟨rfl, rfl⟩)]
      simp only [pushFloat_follows values trivial i _ tail]
      constructor
      · rintro ⟨rfl, _, ⟨bytes, items, ⟨hlength⟩, hi, rfl⟩, rfl⟩
        exact ⟨bytes, _, .single (.mk hlength), hi, rfl⟩
      · rintro ⟨bytes, items, hpayload, hi, rfl⟩
        cases hpayload with
        | single hdatum => exact ⟨rfl, _, ⟨bytes, _, hdatum, hi, rfl⟩, rfl⟩
        | packed => exact absurd rfl htype
        | unknown hunknown => exact absurd rfl hunknown
  · simp only [mergeResponse, if_neg hfield]
    exact reads_skipField_iff fun _ _ => responsePayload_unknown_iff hfield

variable {bytes : List UInt8}

theorem mergeShape_iff {m m' : Option Shape} : mergeBytes mergeShape m bytes = .ok m' ↔
    ∃ variants, Fields (ShapePayload 0) bytes variants ∧ m' = variants.foldl addVariant m :=
  mergeBytes_iff (fun _ _ => mergeShape_follows (by decide)) (fun _ _ _ => trivial) trivial

theorem mergeRequest_iff {shapes shapes' : Array (Option Shape)} :
    mergeBytes mergeRequest shapes bytes = .ok shapes' ↔
      ∃ items, Fields (RequestPayload 0) bytes items ∧ shapes' = items.foldl Array.push shapes :=
  mergeBytes_iff (fun _ _ => mergeRequest_follows (by decide)) (fun _ _ _ => trivial) trivial

theorem mergeResponse_iff {values values' : Array Binary32} :
    mergeBytes mergeResponse values bytes = .ok values' ↔
      ∃ items, Fields (ResponsePayload 0) bytes items ∧ values' = items.foldl Array.push values :=
  mergeBytes_iff (fun _ _ => mergeResponse_follows) (fun _ _ _ => trivial) trivial

@[simp] theorem toList_foldl_push {γ : Type} (items : List γ) (a : Array γ) :
    (items.foldl Array.push a).toList = a.toList ++ items := by
  induction items generalizing a with
  | nil => simp
  | cons x items => simp

theorem decodeRequest_iff {shapes : List (Option Shape)} :
    decodeRequest bytes = .ok shapes ↔ Fields (RequestPayload 0) bytes shapes := by
  simp only [decodeRequest, map_eq_ok_iff, mergeRequest_iff]
  constructor
  · rintro ⟨a, ⟨items, hitems, rfl⟩, rfl⟩
    rwa [toList_foldl_push]
  · intro h
    exact ⟨_, ⟨shapes, h, rfl⟩, toList_foldl_push shapes #[]⟩

theorem decodeResponse_iff {values : List Binary32} :
    decodeResponse bytes = .ok values ↔ Fields (ResponsePayload 0) bytes values := by
  simp only [decodeResponse, map_eq_ok_iff, mergeResponse_iff]
  constructor
  · rintro ⟨a, ⟨items, hitems, rfl⟩, rfl⟩
    rwa [toList_foldl_push]
  · intro h
    exact ⟨_, ⟨values, h, rfl⟩, toList_foldl_push values #[]⟩

/-- The bytes are the fields of a message. -/
def Derivable {γ : Type} (Payload : Key → List UInt8 → List γ → Prop) (bytes : List UInt8) : Prop :=
  ∃ items, Fields Payload bytes items

theorem decodeShape_ok_iff :
    (∃ m, decodeShape bytes = .ok m) ↔ Derivable (ShapePayload 0) bytes := by
  constructor
  · rintro ⟨m, h⟩
    obtain ⟨variants, hvariants, -⟩ := mergeShape_iff.1 h
    exact ⟨variants, hvariants⟩
  · rintro ⟨variants, h⟩
    exact ⟨_, mergeShape_iff.2 ⟨variants, h, rfl⟩⟩

theorem decodeRequest_ok_iff :
    (∃ m, decodeRequest bytes = .ok m) ↔ Derivable (RequestPayload 0) bytes :=
  exists_congr fun _ => decodeRequest_iff

theorem decodeResponse_ok_iff :
    (∃ m, decodeResponse bytes = .ok m) ↔ Derivable (ResponsePayload 0) bytes :=
  exists_congr fun _ => decodeResponse_iff

/-- Packed areas are any bytes whose number is a multiple of four. -/
theorem sequence_datum_iff : (∃ values, Sequence Datum bytes values) ↔ 4 ∣ bytes.length := by
  constructor
  · rintro ⟨values, h⟩
    induction h with
    | nil => exact Nat.dvd_zero 4
    | cons hpiece _ ih =>
      obtain ⟨hlength⟩ := hpiece
      rw [List.length_append, hlength]
      exact Nat.dvd_add_self_left.2 ih
  · rintro ⟨count, h⟩
    induction count generalizing bytes with
    | zero =>
      obtain rfl := List.length_eq_zero_iff.1 h
      exact ⟨[], .nil⟩
    | succ count ih =>
      have hfront : (bytes.take 4).length = 4 := by rw [List.length_take]; omega
      obtain ⟨values, hrest⟩ := @ih (bytes.drop 4) (by rw [List.length_drop]; omega)
      rw [← List.take_append_drop 4 bytes]
      exact ⟨_, .cons (.mk hfront) hrest⟩

theorem error_iff_not_ok {ε α : Type} {result : Except ε α} :
    (∃ e, result = .error e) ↔ ¬∃ a, result = .ok a := by
  cases result <;> simp

theorem delimited_of_shapePayload {payload : List UInt8}
    {variants : List (Kind × List (Nat × Binary32))}
    (h : ShapePayload depth ⟨kind.number, .delimited⟩ payload variants) :
    ∃ dims, Delimited (Fields (DimPayload (depth + 1) kind)) payload dims := by
  obtain ⟨-, dims, hdims, -⟩ := shapePayload_variant_iff.1 h
  exact ⟨dims, hdims⟩

theorem delimited_of_requestPayload {payload : List UInt8} {shapes : List (Option Shape)}
    (h : RequestPayload depth ⟨1, .delimited⟩ payload shapes) :
    ∃ variants, Delimited (Fields (ShapePayload (depth + 1))) payload variants := by
  cases h with
  | shape h => exact ⟨_, h⟩
  | unknown hkey => exact absurd rfl hkey

theorem delimited_of_responsePayload {payload : List UInt8} {values : List Binary32}
    (h : ResponsePayload depth ⟨1, .delimited⟩ payload values) :
    ∃ values, Delimited (Sequence Datum) payload values := by
  cases h with
  | packed h => exact ⟨_, h⟩
  | unknown hkey => exact absurd rfl hkey

section

variable {before start length body after : List UInt8}

/-- A variant that is not derivable from the bytes announced for it is not decoded. -/
theorem decodeShape_error_of_body (hbefore : Derivable (ShapePayload 0) before)
    (hstart : IsKey start ⟨kind.number, .delimited⟩) (hlength : IsVarint length body.length)
    (hbody : ¬Derivable (DimPayload 1 kind) body) :
    ∃ e, decodeShape (before ++ (start ++ (length ++ (body ++ after)))) = .error e := by
  obtain ⟨variants, hvariants⟩ := hbefore
  refine error_iff_not_ok.2 fun ⟨m, h⟩ => hbody ?_
  exact body_of_mergeBytes (fun _ _ => delimited_of_shapePayload)
    (fun _ _ => mergeShape_follows (by decide)) (fun _ _ _ => trivial) trivial hvariants hstart
    hlength h

/-- A shape that is not derivable from the bytes announced for it is not decoded. -/
theorem decodeRequest_error_of_body (hbefore : Derivable (RequestPayload 0) before)
    (hstart : IsKey start ⟨1, .delimited⟩) (hlength : IsVarint length body.length)
    (hbody : ¬Derivable (ShapePayload 1) body) :
    ∃ e, decodeRequest (before ++ (start ++ (length ++ (body ++ after)))) = .error e := by
  obtain ⟨shapes, hshapes⟩ := hbefore
  refine error_iff_not_ok.2 fun ⟨m, h⟩ => hbody ?_
  obtain ⟨a, hmerge, -⟩ := map_eq_ok_iff.1 h
  exact body_of_mergeBytes (fun _ _ => delimited_of_requestPayload)
    (fun _ _ => mergeRequest_follows (by decide)) (fun _ _ _ => trivial) trivial hshapes hstart
    hlength hmerge

/-- Packed areas that end within an area are not decoded. -/
theorem decodeResponse_error_of_body (hbefore : Derivable (ResponsePayload 0) before)
    (hstart : IsKey start ⟨1, .delimited⟩) (hlength : IsVarint length body.length)
    (hbody : ¬4 ∣ body.length) :
    ∃ e, decodeResponse (before ++ (start ++ (length ++ (body ++ after)))) = .error e := by
  obtain ⟨values, hvalues⟩ := hbefore
  refine error_iff_not_ok.2 fun ⟨m, h⟩ => hbody (sequence_datum_iff.1 ?_)
  obtain ⟨a, hmerge, -⟩ := map_eq_ok_iff.1 h
  exact body_of_mergeBytes (fun _ _ => delimited_of_responsePayload)
    (fun _ _ => mergeResponse_follows) (fun _ _ _ => trivial) trivial hvalues hstart
    hlength hmerge

end

/-- The decoders succeed on the derivable bytes and fail on all others. In particular they fail
where the bytes announced for a variant, for a shape or for packed areas are not such a body,
whatever bytes there are behind them. -/
theorem decodes_derivable :
    (∀ bytes, ((∃ m, decodeShape bytes = .ok m) ↔ Derivable (ShapePayload 0) bytes) ∧
      ((∃ shapes, decodeRequest bytes = .ok shapes) ↔ Derivable (RequestPayload 0) bytes) ∧
      ((∃ values, decodeResponse bytes = .ok values) ↔ Derivable (ResponsePayload 0) bytes)) ∧
    (∀ bytes, ((∃ e, decodeShape bytes = .error e) ↔ ¬Derivable (ShapePayload 0) bytes) ∧
      ((∃ e, decodeRequest bytes = .error e) ↔ ¬Derivable (RequestPayload 0) bytes) ∧
      ((∃ e, decodeResponse bytes = .error e) ↔ ¬Derivable (ResponsePayload 0) bytes)) ∧
    ∀ before start length body after : List UInt8, IsVarint length body.length →
      (∀ kind : Kind, Derivable (ShapePayload 0) before →
        IsKey start ⟨kind.number, .delimited⟩ → ¬Derivable (DimPayload 1 kind) body →
          ∃ e, decodeShape (before ++ (start ++ (length ++ (body ++ after)))) = .error e) ∧
      (Derivable (RequestPayload 0) before → IsKey start ⟨1, .delimited⟩ →
        ¬Derivable (ShapePayload 1) body →
          ∃ e, decodeRequest (before ++ (start ++ (length ++ (body ++ after)))) = .error e) ∧
      (Derivable (ResponsePayload 0) before → IsKey start ⟨1, .delimited⟩ → ¬4 ∣ body.length →
        ∃ e, decodeResponse (before ++ (start ++ (length ++ (body ++ after)))) = .error e) := by
  refine ⟨fun bytes => ⟨decodeShape_ok_iff, decodeRequest_ok_iff, decodeResponse_ok_iff⟩,
    fun bytes => ⟨?_, ?_, ?_⟩, fun before start length body after hlength => ⟨?_, ?_, ?_⟩⟩
  · rw [error_iff_not_ok, decodeShape_ok_iff]
  · rw [error_iff_not_ok, decodeRequest_ok_iff]
  · rw [error_iff_not_ok, decodeResponse_ok_iff]
  · exact fun _ hbefore hstart => decodeShape_error_of_body hbefore hstart hlength
  · exact fun hbefore hstart => decodeRequest_error_of_body hbefore hstart hlength
  · exact fun hbefore hstart => decodeResponse_error_of_body hbefore hstart hlength

/-- A circle that is announced with the key of its radius alone is not decoded, although the radius
is behind it. -/
theorem decodes_derivable_radius_outside :
    ¬Derivable (DimPayload 1 .circle) [0x0d] ∧
      ∃ e, decodeShape [0x1a, 1, 0x0d, 0, 0, 0x80, 0x3f] = .error e := by
  have hlength : IsVarint [1] 1 := isVarint_byte (by decide)
  have hstart : IsKey [0x1a] ⟨Kind.circle.number, .delimited⟩ :=
    isKey_byte (by decide) rfl (by decide)
  have hkey : IsKey [0x0d] ⟨1, .fixed32⟩ := isKey_byte (by decide) rfl (by decide)
  have hbody : ¬Derivable (DimPayload 1 .circle) [0x0d] := by
    rintro ⟨dims, h⟩
    generalize hbytes : ([0x0d] : List UInt8) = bytes at h
    cases h with
    | nil => exact absurd hbytes (List.cons_ne_nil _ _)
    | cons hpiece =>
      obtain ⟨hkey', hpayload⟩ := hpiece
      rw [List.append_assoc] at hbytes
      obtain ⟨rfl, -, hrest⟩ := hkey.append_inj hkey' hbytes
      obtain ⟨rfl, -⟩ := List.append_eq_nil_iff.1 hrest.symm
      cases hpayload with
      | dim _ hdatum =>
        obtain ⟨hlength⟩ := hdatum
        exact absurd hlength (by decide)
      | unknown hunknown => exact absurd hunknown (by decide)
  exact ⟨hbody, (decodes_derivable.2.2 [] [0x1a] [1] [0x0d] [0, 0, 0x80, 0x3f] hlength).1 .circle
    ⟨[], .nil⟩ hstart hbody⟩

end Planimeter.Wire
