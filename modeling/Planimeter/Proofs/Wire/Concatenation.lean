import Planimeter.Calculation
import Planimeter.Proofs.Wire.Messages
/-!
# Messages one behind the other

The fields of a message are merged one after the other, so that bytes behind those of a message are
merged into it as if they stood alone. Lists get longer that way; of the variants of a shape the
last one wins, and takes over the dimensions of one of its own kind before it that it does not set
itself. A field that is not known adds nothing wherever it stands between two fields.
-/
namespace Planimeter.Wire

section

variable {α β : Type} {add : α → β → α}
  {merge : Nat → α → Key → (i : Input) → Except Failure (α × i.Rest)}
  {Payload : Key → List UInt8 → List β → Prop} {a b : List UInt8} {items more : List β}

theorem Sequence.append {Piece : List UInt8 → List β → Prop} (ha : Sequence Piece a items)
    (hb : Sequence Piece b more) : Sequence Piece (a ++ b) (items ++ more) := by
  induction ha with
  | nil => exact hb
  | cons hpiece _ ih =>
    rw [List.append_assoc, List.append_assoc]
    exact .cons hpiece ih

theorem Sequence.one {Piece : List UInt8 → List β → Prop} (h : Piece a items) :
    Sequence Piece a items := by
  simpa using Sequence.cons h .nil

/-- Bytes that are decoded can be merged into every message, and what is behind them is merged into
the result. -/
def MergesInTurn {γ : Type} (decode : List UInt8 → Except Failure γ)
    (merge : Nat → α → Key → (i : Input) → Except Failure (α × i.Rest)) : Prop :=
  ∀ a b c m, decode a = .ok c → (∃ m', mergeBytes merge m a = .ok m') ∧
    mergeBytes merge m (a ++ b) = (mergeBytes merge m a).bind fun m' => mergeBytes merge m' b

theorem mergesInTurn {γ : Type} {decode : List UInt8 → Except Failure γ}
    (hmerge : ∀ key, 0 < key.field → Follows (fun _ => True) add (Payload key) fun m i =>
      merge depthLimit m key i)
    (hdecode : ∀ a, (∃ c, decode a = .ok c) ↔ Derivable Payload a) :
    MergesInTurn decode merge := by
  intro a b c m hc
  obtain ⟨items, ha⟩ := (hdecode a).1 ⟨c, hc⟩
  have hm : mergeBytes merge m a = .ok (items.foldl add m) :=
    (mergeBytes_iff hmerge (fun _ _ _ => trivial) trivial).2 ⟨items, ha, rfl⟩
  refine ⟨⟨_, hm⟩, ?_⟩
  rw [mergeBytes_append hmerge (fun _ _ _ => trivial) trivial ha, hm]
  rfl

/-- Behind a list come the elements of what is behind its bytes. -/
theorem fields_append_iff
    {merge : Nat → Array β → Key → (i : Input) → Except Failure (Array β × i.Rest)}
    (hmerge : ∀ key, 0 < key.field → Follows (fun _ => True) Array.push (Payload key) fun m i =>
      merge depthLimit m key i)
    (ha : Fields Payload a items) {all : List β} :
    Fields Payload (a ++ b) all ↔ ∃ more, Fields Payload b more ∧ all = items ++ more := by
  constructor
  · intro h
    have hall : mergeBytes merge #[] (a ++ b) = .ok (all.foldl Array.push #[]) :=
      (mergeBytes_iff hmerge (fun _ _ _ => trivial) trivial).2 ⟨all, h, rfl⟩
    rw [mergeBytes_append hmerge (fun _ _ _ => trivial) trivial ha,
      mergeBytes_iff hmerge (fun _ _ _ => trivial) trivial] at hall
    obtain ⟨more, hb, heq⟩ := hall
    refine ⟨more, hb, ?_⟩
    simpa only [toList_foldl_push, List.nil_append] using congrArg Array.toList heq
  · rintro ⟨more, hb, rfl⟩
    exact ha.append hb

theorem decodeRequest_append {shapes all : List (Option Shape)}
    (ha : decodeRequest a = .ok shapes) : decodeRequest (a ++ b) = .ok all ↔
      ∃ more, decodeRequest b = .ok more ∧ all = shapes ++ more := by
  simp only [decodeRequest_iff] at ha ⊢
  exact fields_append_iff (fun _ _ => mergeRequest_follows (by decide)) ha

theorem decodeResponse_append {values all : List Binary32} (ha : decodeResponse a = .ok values) :
    decodeResponse (a ++ b) = .ok all ↔
      ∃ more, decodeResponse b = .ok more ∧ all = values ++ more := by
  simp only [decodeResponse_iff] at ha ⊢
  exact fields_append_iff (fun _ _ => mergeResponse_follows) ha

theorem decodeResponse_packed {start payload : List UInt8} {values : List Binary32}
    (hstart : IsKey start ⟨1, .delimited⟩) (h : Delimited (Sequence Datum) payload values) :
    decodeResponse (start ++ payload) = .ok values :=
  decodeResponse_iff.2 (.one (.mk hstart (.packed h)))

theorem decodeResponse_single {start payload : List UInt8} {x : Binary32}
    (hstart : IsKey start ⟨1, .fixed32⟩) (h : Datum payload [x]) :
    decodeResponse (start ++ payload) = .ok [x] :=
  decodeResponse_iff.2 (.one (.mk hstart (.single h)))

end

section

variable {kind : Kind} {dims : List (Nat × Binary32)} {place : Nat}

@[simp] theorem kind_foldl_set (dims : List (Nat × Binary32)) (s : Shape) :
    (dims.foldl (fun s d => s.set d.1 d.2) s).kind = s.kind := by
  induction dims generalizing s with
  | nil => rfl
  | cons d dims ih => rw [List.foldl_cons, ih, kind_set]

/-- A dimension is what was set last at its place, and what it was before if none was set there. -/
theorem dims_foldl_set (dims : List (Nat × Binary32)) {s : Shape} (hplace : place < s.kind.arity) :
    (dims.foldl (fun s d => s.set d.1 d.2) s).dims[place]? =
      (dims.reverse.lookup place).or s.dims[place]? := by
  induction dims generalizing s with
  | nil => rfl
  | cons d dims ih =>
    obtain ⟨place', x⟩ := d
    rw [List.foldl_cons, ih (by rwa [kind_set]), List.reverse_cons, List.lookup_append,
      Shape.dims_set]
    cases dims.reverse.lookup place with
    | some y => rfl
    | none =>
      by_cases h : place' = place
      · subst h
        have hlength : place' < s.dims.length := by rwa [Shape.length_dims]
        simp [List.getElem?_set_self hlength]
      · have hbeq : (place == place') = false := beq_false_of_ne (Ne.symm h)
        simp [List.lookup_cons, List.getElem?_set_ne h, hbeq]

/-- A shape of another kind does not matter for a variant behind it. -/
theorem addVariant_of_kind_ne {m : Option Shape} (h : ∀ s ∈ m, s.kind ≠ kind) :
    addVariant m (kind, dims) = addVariant none (kind, dims) := by
  cases m with
  | none => rfl
  | some s => rw [addVariant, addVariant, openVariant, if_neg (h s rfl), openVariant]

theorem addVariant_of_kind {s : Shape} (h : s.kind = kind) :
    addVariant (some s) (kind, dims) = some (dims.foldl (fun s d => s.set d.1 d.2) s) := by
  rw [addVariant, openVariant, if_pos h]

/-- What a shape is turned into by bytes that are decoded to another one if they stand alone. Of two
shapes the last one wins, and it is the same as alone unless there was one of its kind before. -/
inductive Overrides (m : Option Shape) : Option Shape → Option Shape → Prop where
  | none : Overrides m none m
  | some {alone s : Shape} (hkind : s.kind = alone.kind)
      (hne : (∀ before ∈ m, before.kind ≠ alone.kind) → s = alone) :
      Overrides m (some alone) (some s)

variable {m alone s : Option Shape}

theorem overrides_addVariant (h : Overrides m alone s) (variant : Kind × List (Nat × Binary32)) :
    Overrides m (addVariant alone variant) (addVariant s variant) := by
  obtain ⟨kind, dims⟩ := variant
  cases h with
  | none =>
    refine .some ?_ fun hne => ?_
    · simp
    · rw [kind_foldl_set, kind_openVariant] at hne
      exact Option.some.inj (addVariant_of_kind_ne hne)
  | @some alone s hkind hne =>
    by_cases h : alone.kind = kind
    · rw [addVariant_of_kind h, addVariant_of_kind (hkind.trans h)]
      refine .some (by rw [kind_foldl_set, kind_foldl_set, hkind]) fun hne' => ?_
      rw [kind_foldl_set] at hne'
      rw [hne hne']
    · have hfresh {t : Shape} (ht : t.kind ≠ kind) :
          addVariant (some t) (kind, dims) = addVariant none (kind, dims) :=
        addVariant_of_kind_ne fun _ hmem => Option.some.inj hmem ▸ ht
      rw [hfresh h, hfresh (hkind ▸ h)]
      exact .some rfl fun _ => rfl

theorem overrides_foldl_addVariant (h : Overrides m alone s)
    (variants : List (Kind × List (Nat × Binary32))) :
    Overrides m (variants.foldl addVariant alone) (variants.foldl addVariant s) := by
  induction variants generalizing alone s with
  | nil => exact h
  | cons variant variants ih => exact ih (overrides_addVariant h variant)

variable {a b field : List UInt8}

/-- Bytes behind those of a shape add their variants to it. -/
theorem decodeShape_append_iff (ha : decodeShape a = .ok m) : decodeShape (a ++ b) = .ok s ↔
    ∃ variants, Fields (ShapePayload 0) b variants ∧ s = variants.foldl addVariant m := by
  obtain ⟨first, hfirst, rfl⟩ := mergeShape_iff.1 ha
  rw [decodeShape, mergeBytes_append (fun _ _ => mergeShape_follows (by decide))
    (fun _ _ _ => trivial) trivial hfirst, mergeShape_iff]

theorem exists_decodeShape_append_iff (ha : decodeShape a = .ok m) :
    (∃ s, decodeShape (a ++ b) = .ok s) ↔ ∃ alone, decodeShape b = .ok alone := by
  constructor
  · rintro ⟨s, hs⟩
    obtain ⟨variants, hb, -⟩ := (decodeShape_append_iff ha).1 hs
    exact ⟨_, mergeShape_iff.2 ⟨variants, hb, rfl⟩⟩
  · rintro ⟨alone, halone⟩
    obtain ⟨variants, hb, -⟩ := mergeShape_iff.1 halone
    exact ⟨_, (decodeShape_append_iff ha).2 ⟨variants, hb, rfl⟩⟩

/-- The last variant wins. -/
theorem overrides_of_decodeShape (ha : decodeShape a = .ok m) (hb : decodeShape b = .ok alone)
    (hs : decodeShape (a ++ b) = .ok s) : Overrides m alone s := by
  obtain ⟨variants, hvariants, rfl⟩ := (decodeShape_append_iff ha).1 hs
  have halone := hb.symm.trans (mergeShape_iff.2 ⟨variants, hvariants, rfl⟩)
  obtain rfl := Except.ok.inj halone
  exact overrides_foldl_addVariant .none variants

/-- A variant of the kind that was there sets its dimensions and leaves the others. -/
theorem decodeShape_append_variant (ha : decodeShape a = .ok m)
    (hfield : Field (ShapePayload 0) field [(kind, dims)]) :
    ∃ s, decodeShape (a ++ field) = .ok (some s) ∧ s.kind = kind ∧
      ∀ before ∈ m, before.kind = kind → ∀ place < kind.arity,
        s.dims[place]? = (dims.reverse.lookup place).or before.dims[place]? := by
  refine ⟨_, (decodeShape_append_iff ha).2 ⟨_, .one hfield, rfl⟩, ?_, ?_⟩
  · simp
  · rintro before rfl hkind place hplace
    rw [openVariant, if_pos hkind]
    exact dims_foldl_set dims (hkind ▸ hplace)

end

/-- A field whose number is not in use. -/
inductive UnknownField (Unused : Nat → Prop) : List UInt8 → Prop where
  | mk {key : Key} {start payload : List UInt8} (hstart : IsKey start key)
      (hunused : Unused key.field) (hpayload : Skipped 0 key payload) :
      UnknownField Unused (start ++ payload)

/-- Decoding does not see a field that is not in use between the fields of a message. -/
def PassesOver {γ : Type} (Unused : Nat → Prop) (decode : List UInt8 → Except Failure γ) : Prop :=
  ∀ a b c field, decode a = .ok c → UnknownField Unused field →
    decode (a ++ (field ++ b)) = decode (a ++ b)

section

variable {α β : Type} {add : α → β → α}
  {merge : Nat → α → Key → (i : Input) → Except Failure (α × i.Rest)}
  {Payload : Key → List UInt8 → List β → Prop} {a b field : List UInt8}

theorem mergeBytes_passes
    (hmerge : ∀ key, 0 < key.field → Follows (fun _ => True) add (Payload key) fun m i =>
      merge depthLimit m key i)
    (ha : Derivable Payload a) (hfield : Field Payload field []) (m : α) :
    mergeBytes merge m (a ++ (field ++ b)) = mergeBytes merge m (a ++ b) := by
  obtain ⟨items, ha⟩ := ha
  have hboth : Fields Payload (a ++ field) items := by simpa using ha.append (.one hfield)
  rw [← List.append_assoc, mergeBytes_append hmerge (fun _ _ _ => trivial) trivial hboth,
    mergeBytes_append hmerge (fun _ _ _ => trivial) trivial ha]

/-- The numbers of the fields that a message holding a shape does not have. -/
def NoVariant (n : Nat) : Prop := ∀ kind : Kind, n ≠ kind.number

theorem shapeField_of_unknown (h : UnknownField NoVariant field) :
    Field (ShapePayload 0) field [] := by
  obtain ⟨hstart, hunused, hpayload⟩ := h
  exact .mk hstart (.unknown hunused hpayload)

theorem decodeShape_passesOver : PassesOver NoVariant decodeShape := fun _ _ c _ ha hfield =>
  mergeBytes_passes (fun _ _ => mergeShape_follows (by decide)) (decodeShape_ok_iff.1 ⟨c, ha⟩)
    (shapeField_of_unknown hfield) none

theorem decodeRequest_passesOver : PassesOver (· ≠ 1) decodeRequest := by
  rintro a b c _ ha ⟨hstart, hunused, hpayload⟩
  rw [decodeRequest, mergeBytes_passes (fun _ _ => mergeRequest_follows (by decide))
    (decodeRequest_ok_iff.1 ⟨c, ha⟩) (.mk hstart (.unknown hunused hpayload)) #[]]
  rfl

theorem decodeResponse_passesOver : PassesOver (· ≠ 1) decodeResponse := by
  rintro a b c _ ha ⟨hstart, hunused, hpayload⟩
  rw [decodeResponse, mergeBytes_passes (fun _ _ => mergeResponse_follows)
    (decodeResponse_ok_iff.1 ⟨c, ha⟩) (.mk hstart (.unknown hunused hpayload)) #[]]
  rfl

theorem decodeShape_unknown {fields : List (List UInt8)}
    (h : ∀ field ∈ fields, UnknownField NoVariant field) :
    decodeShape fields.flatten = .ok none := by
  have hfields : Fields (ShapePayload 0) fields.flatten [] := by
    induction fields with
    | nil => exact .nil
    | cons field fields ih =>
      obtain ⟨hfield, hfields⟩ := List.forall_mem_cons.1 h
      exact .cons (shapeField_of_unknown hfield) (ih hfields)
  exact mergeShape_iff.2 ⟨[], hfields, rfl⟩

end

/-- Bytes that are decoded are merged before whatever is behind them. So the shapes of a request and
the areas of a response come one behind the other, packed ones and single ones alike; the last
variant of a shape wins, and adds to one of its own kind before it; fields that are not known change
nothing between two fields, and nothing but them makes a message without a shape, whose area is
refused. -/
theorem messages_concatenate :
    (MergesInTurn decodeShape mergeShape ∧ MergesInTurn decodeRequest mergeRequest ∧
      MergesInTurn decodeResponse mergeResponse) ∧
    (∀ a b shapes, decodeRequest a = .ok shapes → ∀ all, decodeRequest (a ++ b) = .ok all ↔
      ∃ more, decodeRequest b = .ok more ∧ all = shapes ++ more) ∧
    (∀ a b values, decodeResponse a = .ok values → ∀ all, decodeResponse (a ++ b) = .ok all ↔
      ∃ more, decodeResponse b = .ok more ∧ all = values ++ more) ∧
    (∀ start payload values, IsKey start ⟨1, .delimited⟩ →
      Delimited (Sequence Datum) payload values → decodeResponse (start ++ payload) = .ok values) ∧
    (∀ start payload x, IsKey start ⟨1, .fixed32⟩ → Datum payload [x] →
      decodeResponse (start ++ payload) = .ok [x]) ∧
    (∀ a b m, decodeShape a = .ok m →
      ((∃ s, decodeShape (a ++ b) = .ok s) ↔ ∃ alone, decodeShape b = .ok alone) ∧
      ∀ alone s, decodeShape b = .ok alone → decodeShape (a ++ b) = .ok s →
        Overrides m alone s) ∧
    (∀ a m field kind dims, decodeShape a = .ok m → Field (ShapePayload 0) field [(kind, dims)] →
      ∃ s, decodeShape (a ++ field) = .ok (some s) ∧ s.kind = kind ∧
        ∀ before ∈ m, before.kind = kind → ∀ place < kind.arity,
          s.dims[place]? = (dims.reverse.lookup place).or before.dims[place]?) ∧
    (PassesOver NoVariant decodeShape ∧ PassesOver (· ≠ 1) decodeRequest ∧
      PassesOver (· ≠ 1) decodeResponse) ∧
    ∀ fields : List (List UInt8), (∀ field ∈ fields, UnknownField NoVariant field) →
      decodeShape fields.flatten = .ok none ∧
        (decodeShape fields.flatten).map Calculation.area = .ok (.error .unrecognized) := by
  refine ⟨⟨?_, ?_, ?_⟩, fun a b shapes ha all => decodeRequest_append ha,
    fun a b values ha all => decodeResponse_append ha,
    fun start payload values => decodeResponse_packed, fun start payload x => decodeResponse_single,
    fun a b m ha => ⟨exists_decodeShape_append_iff ha, fun _ _ => overrides_of_decodeShape ha⟩,
    fun a m field kind dims => decodeShape_append_variant,
    ⟨decodeShape_passesOver, decodeRequest_passesOver, decodeResponse_passesOver⟩, ?_⟩
  · exact mergesInTurn (fun _ _ => mergeShape_follows (by decide)) fun _ => decodeShape_ok_iff
  · exact mergesInTurn (fun _ _ => mergeRequest_follows (by decide)) fun _ => decodeRequest_ok_iff
  · exact mergesInTurn (fun _ _ => mergeResponse_follows) fun _ => decodeResponse_ok_iff
  · intro fields hfields
    have hnone := decodeShape_unknown hfields
    refine ⟨hnone, ?_⟩
    rw [hnone]
    rfl

/-- An area packed and another one alone, with an empty group between them; a rectangle's length and
then its width; a field of a kind of shape yet unknown. -/
theorem messages_concatenate_mixed :
    decodeResponse ([0x0a, 4, 0, 0, 0x80, 0x3f] ++ ([0x13, 0x14] ++ [0x0d, 0, 0, 0, 0x40])) =
      .ok [.ofBits 0x3f800000, .ofBits 0x40000000] ∧
    (∃ s, decodeShape ([0x12, 5, 0x0d, 0, 0, 0x80, 0x3f] ++ [0x12, 5, 0x15, 0, 0, 0, 0x40]) =
      .ok (some s) ∧ s.kind = .rectangle ∧ s.dims[0]? = some (.ofBits 0x3f800000) ∧
        s.dims[1]? = some (.ofBits 0x40000000)) ∧
    (decodeShape [0x32, 0]).map Calculation.area = .ok (.error .unrecognized) := by
  obtain ⟨-, -, happend, hpacked, hsingle, -, hvariant, ⟨-, -, hpasses⟩, hunknown⟩ :=
    messages_concatenate
  refine ⟨?_, ?_, ?_⟩
  · have hone : decodeResponse [0x0a, 4, 0, 0, 0x80, 0x3f] = .ok [.ofBits 0x3f800000] :=
      hpacked [0x0a] [4, 0, 0, 0x80, 0x3f] _ (isKey_byte (by decide) rfl (by decide))
        (@Delimited.mk _ _ [4] [0, 0, 0x80, 0x3f] _ (isVarint_byte (by decide))
          (Sequence.one (.mk rfl)))
    have htwo : decodeResponse [0x0d, 0, 0, 0, 0x40] = .ok [.ofBits 0x40000000] :=
      hsingle [0x0d] [0, 0, 0, 0x40] _ (isKey_byte (by decide) rfl (by decide)) (.mk rfl)
    have hgroup : UnknownField (· ≠ 1) [0x13, 0x14] :=
      @UnknownField.mk _ ⟨2, .startGroup⟩ [0x13] [0x14] (isKey_byte (by decide) rfl (by decide))
        (by decide) (@Skipped.group 0 2 [] [0x14] (by decide) .nil
          (isKey_byte (by decide) rfl (by decide)))
    rw [hpasses _ _ _ _ hone hgroup, happend _ _ _ hone]
    exact ⟨_, htwo, rfl⟩
  · have hdim {place : Nat} {b c d : UInt8} (hb : b < 128) (hplace : place < 2)
        (hkey : 8 * (place + 1) + 5 = b.toNat) : Field (ShapePayload 0) [0x12, 5, b, 0, 0, c, d]
          [(.rectangle, [(place, .ofBits (wordOfBytes [0, 0, c, d]))])] :=
      @Field.mk _ _ ⟨2, .delimited⟩ [0x12] _ _ (isKey_byte (by decide) rfl (by decide))
        (@ShapePayload.variant 0 .rectangle _ _ (@Delimited.mk _ _ [5] [b, 0, 0, c, d] _
          (isVarint_byte (by decide)) (Sequence.one (@Field.mk _ _ ⟨place + 1, .fixed32⟩ [b] _ _
            (isKey_byte hb hkey (Nat.succ_pos place)) (.dim hplace (.mk rfl))))))
    have hlength : Field (ShapePayload 0) [0x12, 5, 0x0d, 0, 0, 0x80, 0x3f]
        [(.rectangle, [(0, .ofBits 0x3f800000)])] := hdim (by decide) (by decide) rfl
    have hwidth : Field (ShapePayload 0) [0x12, 5, 0x15, 0, 0, 0, 0x40]
        [(.rectangle, [(1, .ofBits 0x40000000)])] := hdim (by decide) (by decide) rfl
    have hfirst : decodeShape [0x12, 5, 0x0d, 0, 0, 0x80, 0x3f] =
        .ok (some (.rectangle (.ofBits 0x3f800000) (.ofBits 0))) :=
      mergeShape_iff.2 ⟨_, .one hlength, rfl⟩
    obtain ⟨s, hs, hkind, hdims⟩ := hvariant _ _ _ _ _ hfirst hwidth
    exact ⟨s, hs, hkind, hdims _ rfl rfl 0 (by decide), hdims _ rfl rfl 1 (by decide)⟩
  · have hnew : UnknownField NoVariant [0x32, 0] :=
      @UnknownField.mk _ ⟨6, .delimited⟩ [0x32] [0] (isKey_byte (by decide) rfl (by decide))
        (fun kind => by cases kind <;> decide)
        (@Skipped.delimited 0 6 [0] [] (by decide) (isVarint_byte (by decide)))
    exact (hunknown [[0x32, 0]] (List.forall_mem_singleton.2 hnew)).2

end Planimeter.Wire
