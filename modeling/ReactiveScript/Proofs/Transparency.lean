import ReactiveScript.Value.Container

/-!
# Tags are transparent

A value without its tags is bare. Every operation does to bare values what it does to tagged ones:
the result for bare operands is the bare result. So what an operation gives is determined up to tags
by its operands up to tags.
-/

namespace ReactiveScript

namespace OrderedMap

variable {α β : Type} (f : α → β)

/-- Changes the values under the keys. -/
def mapValues (m : OrderedMap α) : OrderedMap β := m.map fun e => (e.1, f e.2)

@[simp] theorem length_mapValues (m : OrderedMap α) : (m.mapValues f).length = m.length :=
  List.length_map _

@[simp] theorem keys_mapValues (m : OrderedMap α) : (m.mapValues f).keys = m.keys := by
  simp [keys, mapValues, Function.comp_def]

theorem find?_mapValues (m : OrderedMap α) (key : String) :
    (m.mapValues f).find? key = (m.find? key).map f := by
  induction m with
  | nil => rfl
  | cons e rest ih =>
    obtain ⟨k, v⟩ := e
    by_cases hk : k = key
    · simp [mapValues, find?, hk]
    · simpa [mapValues, find?, hk] using ih

theorem mapValues_insert (m : OrderedMap α) (key : String) (value : α) :
    (m.insert key value).mapValues f = (m.mapValues f).insert key (f value) := by
  induction m with
  | nil => rfl
  | cons e rest ih =>
    obtain ⟨k, v⟩ := e
    by_cases hk : k = key
    · simp [mapValues, insert, hk]
    · simpa [mapValues, insert, hk] using ih

theorem mapValues_erase (m : OrderedMap α) (key : String) :
    (m.erase key).mapValues f = (m.mapValues f).erase key := by
  simp [mapValues, erase, List.filter_map, Function.comp_def]

theorem mapValues_merged (m other : OrderedMap α) :
    (m.merged other).mapValues f = (m.mapValues f).merged (other.mapValues f) := by
  simp only [merged]
  induction other generalizing m with
  | nil => rfl
  | cons e rest ih =>
    obtain ⟨k, v⟩ := e
    rw [List.foldl_cons, ih, mapValues_insert]
    rfl

theorem mapValues_withoutKeys (m : OrderedMap α) (removed : List String) :
    (m.withoutKeys removed).mapValues f = (m.mapValues f).withoutKeys removed := by
  simp only [withoutKeys]
  induction removed generalizing m with
  | nil => rfl
  | cons key rest ih => rw [List.foldl_cons, ih, mapValues_erase]; rfl

@[simp] theorem containsKey_mapValues (m : OrderedMap α) (key : String) :
    (m.mapValues f).containsKey key = m.containsKey key := by
  rw [containsKey, find?_mapValues, Option.isSome_map, containsKey]

@[simp] theorem freshKey_mapValues (m : OrderedMap α) : (m.mapValues f).freshKey = m.freshKey := by
  rw [freshKey, freshIndex, length_mapValues, freeFrom_congr (containsKey_mapValues f m)]
  rfl

end OrderedMap

namespace Value

mutual

/-- The value without any tags, outside or inside. -/
def bare : Value → Value
  | list items => list (bareItems items)
  | map entries => map (bareEntries entries)
  | tagged v _ => v.bare
  | v => v

def bareItems : List Value → List Value
  | [] => []
  | v :: rest => v.bare :: bareItems rest

def bareEntries : List (String × Value) → List (String × Value)
  | [] => []
  | (key, v) :: rest => (key, v.bare) :: bareEntries rest

end

theorem bareItems_eq (items : List Value) : bareItems items = items.map bare := by
  induction items with
  | nil => rfl
  | cons v rest ih => rw [bareItems, ih]; rfl

theorem bareEntries_eq (entries : List (String × Value)) :
    bareEntries entries = OrderedMap.mapValues bare entries := by
  induction entries with
  | nil => rfl
  | cons e rest ih => obtain ⟨k, v⟩ := e; rw [bareEntries, ih]; rfl

mutual

@[simp] theorem bare_bare (v : Value) : v.bare.bare = v.bare := by
  cases v with
  | list items => simp only [bare, bareItems_bareItems items]
  | map entries => simp only [bare, bareEntries_bareEntries entries]
  | tagged v m => simp only [bare, bare_bare v]
  | _ => rfl

theorem bareItems_bareItems (items : List Value) :
    bareItems (bareItems items) = bareItems items := by
  cases items with
  | nil => rfl
  | cons v rest => simp only [bareItems, bare_bare v, bareItems_bareItems rest]

theorem bareEntries_bareEntries (entries : List (String × Value)) :
    bareEntries (bareEntries entries) = bareEntries entries := by
  cases entries with
  | nil => rfl
  | cons e rest =>
    obtain ⟨key, v⟩ := e
    simp only [bareEntries, bare_bare v, bareEntries_bareEntries rest]

end

@[simp] theorem bare_list (items : List Value) : (list items).bare = list (items.map bare) := by
  rw [bare, bareItems_eq]

@[simp] theorem bare_map (entries : OrderedMap Value) :
    (map entries).bare = map (OrderedMap.mapValues bare entries) := by
  rw [bare, bareEntries_eq]

@[simp] theorem bare_tagged (v : Value) (m : Metadata) : (tagged v m).bare = v.bare := by rw [bare]

@[simp] theorem bare_withMetadata (v : Value) (m : Metadata) :
    (v.withMetadata m).bare = v.bare := by
  cases v <;> simp [withMetadata, bare]

/-- What is bare is not tagged. -/
@[simp] theorem untagged_bare (v : Value) : v.bare.untagged = v.bare := by
  induction v using untagged.induct with
  | case1 v m ih => simpa using ih
  | case2 v hv => cases v <;> simp_all [untagged, bare]

theorem bare_untagged (v : Value) : v.untagged.bare = v.bare := by
  induction v using untagged.induct with
  | case1 v m ih => simpa using ih
  | case2 v hv => cases v <;> simp_all [untagged]

/-- The value with its tags joined, as it is when it was forced to depth one. -/
def joined : Value → Value
  | .tagged v m => v.joined.withMetadata m
  | v => v

theorem bare_joined (v : Value) : v.joined.bare = v.bare := by
  induction v using joined.induct with
  | case1 v m ih => rw [joined, bare_withMetadata, ih, bare_tagged]
  | case2 v plain => rw [joined.eq_2 v plain]

theorem untagged_withMetadata (v : Value) (m : Metadata) :
    (v.withMetadata m).untagged = v.untagged := by
  cases v <;> rfl

@[simp] theorem untagged_joined (v : Value) : v.joined.untagged = v.untagged := by
  induction v using joined.induct with
  | case1 v m ih => rw [joined, untagged_withMetadata, ih, untagged_tagged]
  | case2 v plain => rw [joined.eq_2 v plain]

mutual

theorem toJson_bare (v : Value) : v.bare.toJson = v.toJson := by
  cases v with
  | list items => simp only [bare, toJson, itemsToJson_bare items]
  | map entries => simp only [bare, toJson, entriesToJson_bare entries]
  | tagged v m => simp only [bare, toJson, toJson_bare v]
  | _ => rfl

theorem itemsToJson_bare (items : List Value) :
    itemsToJson (bareItems items) = itemsToJson items := by
  cases items with
  | nil => rfl
  | cons v rest => simp only [bareItems, itemsToJson, toJson_bare v, itemsToJson_bare rest]

theorem entriesToJson_bare (entries : List (String × Value)) :
    entriesToJson (bareEntries entries) = entriesToJson entries := by
  cases entries with
  | nil => rfl
  | cons e rest =>
    obtain ⟨key, v⟩ := e
    simp only [bareEntries, entriesToJson, toJson_bare v, entriesToJson_bare rest]

end

/-- What looks at the value inside all tags need only be considered there. -/
theorem bare_of_untagged {α : Type} {f g : Value → α} (through : ∀ v m, g (tagged v m) = g v)
    (direct : ∀ v, v.untagged = v → f v.bare = g v) (v : Value) : f v.bare = g v := by
  induction v using Value.untagged.induct with
  | case1 v m ih => rw [bare_tagged, ih, through]
  | case2 v hv => exact direct v (by cases v <;> simp_all [Value.untagged])

@[simp] theorem display_bare (v : Value) : v.bare.display = v.display := by
  refine bare_of_untagged (fun _ _ => rfl) (fun v hv => ?_) v
  cases v with
  | list items => exact congrArg JsonTree.text (toJson_bare (list items))
  | map entries => exact congrArg JsonTree.text (toJson_bare (map entries))
  | tagged v m => exact absurd hv (untagged_ne_tagged _ _ _)
  | _ => rfl

@[simp] theorem display_untagged (v : Value) : v.untagged.display = v.display := by
  rw [← display_bare, bare_untagged, display_bare]

@[simp] theorem display_list_bare (items : List Value) :
    (list (items.map bare)).display = (list items).display := by
  rw [← bare_list, display_bare]

@[simp] theorem display_map_bare (entries : OrderedMap Value) :
    (map (OrderedMap.mapValues bare entries)).display = (map entries).display := by
  rw [← bare_map, display_bare]

@[simp] theorem typeTag?_bare (v : Value) : v.bare.typeTag? = v.typeTag? := by
  refine bare_of_untagged (fun _ _ => rfl) (fun v hv => ?_) v
  cases v <;> first | rfl | exact absurd hv (untagged_ne_tagged _ _ _)

@[simp] theorem asError?_bare (v : Value) : v.bare.asError? = v.asError? := by
  refine bare_of_untagged (fun _ _ => rfl) (fun v hv => ?_) v
  cases v <;> first | rfl | exact absurd hv (untagged_ne_tagged _ _ _)

@[simp] theorem asError?_joined (v : Value) : v.joined.asError? = v.asError? := by
  rw [asError?, untagged_joined, asError?]

@[simp] theorem asNode?_bare (v : Value) : v.bare.asNode? = v.asNode? := by
  refine bare_of_untagged (fun _ _ => rfl) (fun v hv => ?_) v
  cases v <;> first | rfl | exact absurd hv (untagged_ne_tagged _ _ _)

@[simp] theorem asResource?_bare (v : Value) : v.bare.asResource? = v.asResource? := by
  refine bare_of_untagged (fun _ _ => rfl) (fun v hv => ?_) v
  cases v <;> first | rfl | exact absurd hv (untagged_ne_tagged _ _ _)

@[simp] theorem isVoid_bare (v : Value) : v.bare.isVoid = v.isVoid := by
  refine bare_of_untagged (fun _ _ => rfl) (fun v hv => ?_) v
  cases v <;> first | rfl | exact absurd hv (untagged_ne_tagged _ _ _)

@[simp] theorem isError_bare (v : Value) : v.bare.isError = v.isError := by
  rw [isError, asError?_bare, isError]

@[simp] theorem isTrue_bare (v : Value) : v.bare.isTrue = v.isTrue := by
  refine bare_of_untagged (fun _ _ => rfl) (fun v hv => ?_) v
  cases v with
  | list items => simp [isTrue, untagged]
  | map entries => simp [isTrue, untagged, OrderedMap.mapValues]
  | tagged v m => exact absurd hv (untagged_ne_tagged _ _ _)
  | _ => rfl

@[simp] theorem isNode_bare (v : Value) : v.bare.isNode = v.isNode := by
  refine bare_of_untagged (fun _ _ => rfl) (fun v hv => ?_) v
  cases v <;> first | rfl | exact absurd hv (untagged_ne_tagged _ _ _)

section alike

variable {v w : Value}

theorem isError_congr (h : v.bare = w.bare) : v.isError = w.isError := by
  rw [← isError_bare, h, isError_bare]

theorem isTrue_congr (h : v.bare = w.bare) : v.isTrue = w.isTrue := by
  rw [← isTrue_bare, h, isTrue_bare]

theorem isNode_congr (h : v.bare = w.bare) : v.isNode = w.isNode := by
  rw [← isNode_bare, h, isNode_bare]

end alike

theorem isOpaque_bare {v : Value} (hv : v.untagged = v) : v.bare.isOpaque = v.isOpaque := by
  cases v <;> first | rfl | exact absurd hv (untagged_ne_tagged _ _ _)

theorem sameText_bare {v w : Value} (hv : v.untagged = v) (hw : w.untagged = w) :
    sameText v.bare w.bare = sameText v w := by
  simp only [sameText, isOpaque_bare hv, isOpaque_bare hw, display_bare]

mutual

theorem same_bare (v w : Value) : v.bare.same w.bare = v.same w := by
  cases v with
  | tagged v m => simp only [bare, same, same_bare v w]
  | void => exact isVoid_bare w
  | node n => exact congrArg (fun b => b.any fun b => n.id == b.id) (asNode?_bare w)
  | resource r => exact congrArg (fun b => b.any fun b => r.id == b.id) (asResource?_bare w)
  | list items =>
    refine bare_of_untagged (fun w m => by simp [same]) (fun w hw => ?_) w
    cases w with
    | tagged w m => exact absurd hw (untagged_ne_tagged _ _ _)
    | list others => exact sameItems_bare items others
    | _ => exact sameText_bare (v := list items) rfl rfl
  | map entries =>
    refine bare_of_untagged (fun w m => by simp [same]) (fun w hw => ?_) w
    cases w with
    | tagged w m => exact absurd hw (untagged_ne_tagged _ _ _)
    | map others =>
      simp only [bare, same, untagged, sameEntries_bare entries others]
      simp [bareEntries_eq]
    | _ => exact sameText_bare (v := map entries) rfl rfl
  | _ =>
    refine bare_of_untagged (fun w m => by simp [same]) (fun w hw => ?_) w
    cases w with
    | tagged w m => exact absurd hw (untagged_ne_tagged _ _ _)
    | list others =>
      simp only [bare, same, untagged, sameText, isOpaque, bareItems_eq, display_list_bare]
    | map others =>
      simp only [bare, same, untagged, sameText, isOpaque, bareEntries_eq, display_map_bare]
    | _ => rfl

theorem sameItems_bare (items others : List Value) :
    sameItems (bareItems items) (bareItems others) = sameItems items others := by
  cases items with
  | nil => cases others <;> rfl
  | cons v rest =>
    cases others with
    | nil => rfl
    | cons w others => simp only [bareItems, sameItems, same_bare v w, sameItems_bare rest others]

theorem sameEntries_bare (entries others : List (String × Value)) :
    sameEntries (bareEntries entries) (bareEntries others) = sameEntries entries others := by
  cases entries with
  | nil => rfl
  | cons e rest =>
    obtain ⟨key, v⟩ := e
    simp only [bareEntries, sameEntries, sameEntries_bare rest others]
    simp only [bareEntries_eq, OrderedMap.find?_mapValues]
    cases OrderedMap.find? key others with
    | none => rfl
    | some w => simp only [Option.map_some, same_bare v w]

end

theorem same_bare_left (v w : Value) : v.bare.same w = v.same w := by
  rw [← same_bare v.bare w, bare_bare, same_bare]

theorem same_bare_right (v w : Value) : v.same w.bare = v.same w := by
  rw [← same_bare v w.bare, bare_bare, same_bare]

@[simp] theorem same_untagged (v w : Value) : v.same w.untagged = v.same w := by
  rw [← same_bare_right, bare_untagged, same_bare_right]

@[simp] theorem compare?_bare (v w : Value) : v.bare.compare? w.bare = v.compare? w := by
  refine bare_of_untagged (f := fun v => v.compare? w.bare) (g := fun v => v.compare? w)
    (fun _ _ => rfl) (fun v hv => ?_) v
  refine bare_of_untagged (f := fun w => v.bare.compare? w) (g := fun w => v.compare? w)
    (fun _ _ => rfl) (fun w hw => ?_) w
  cases v with
  | tagged v m => exact absurd hv (untagged_ne_tagged _ _ _)
  | _ =>
    cases w with
    | tagged w m => exact absurd hw (untagged_ne_tagged _ _ _)
    | _ =>
      simp only [compare?, untagged, bare, bareItems_eq, bareEntries_eq, display_list_bare,
        display_map_bare, List.length_map, OrderedMap.length_mapValues]

section operators

theorem map_bare_ok (v : Value) :
    (Except.ok v : Except EvalError Value).map bare = .ok v.bare := rfl

theorem map_bare_error (e : EvalError) :
    (Except.error e : Except EvalError Value).map bare = .error e := rfl

theorem map_bare_bind (count : Except EvalError Nat) (make : Nat → Value) :
    (count >>= fun n => Except.ok (make n)).map bare =
      count >>= fun n => Except.ok (make n).bare := by
  cases count <;> rfl

@[simp] theorem bare_ofExact (n : Int) (d : Decimal) : (ofExact n d).bare = ofExact n d := by
  unfold ofExact
  split <;> rfl

@[simp] theorem bare_signedInfinity (d : Decimal) :
    (signedInfinity d).bare = signedInfinity d := rfl

@[simp] theorem bare_decimalProduct (a b : Decimal) :
    (decimalProduct a b).bare = decimalProduct a b := by
  unfold decimalProduct
  split <;> rfl

@[simp] theorem bare_byDivisor (f : Decimal → Decimal → Decimal) (a b : Decimal) :
    (byDivisor f a b).bare = byDivisor f a b := by
  unfold byDivisor
  split <;> rfl

theorem errorOperand?_bare (l r : Value) :
    errorOperand? l.bare r.bare = (errorOperand? l r).map bare := by
  simp only [errorOperand?, isError_bare]
  split
  · rfl
  · split <;> rfl

theorem expandRange_bare {v : Value} (hv : v.untagged = v) :
    v.bare.expandRange = v.expandRange.bare := by
  cases v with
  | tagged v m => exact absurd hv (untagged_ne_tagged _ _ _)
  | range r => simp [expandRange, bare, Function.comp_def]
  | _ => rfl

theorem untagged_expandRange {v : Value} (hv : v.untagged = v) :
    v.expandRange.untagged = v.expandRange := by
  cases v with
  | tagged v m => exact absurd hv (untagged_ne_tagged _ _ _)
  | _ => rfl

theorem sum_bare {a b : Value} (ha : a.untagged = a) (hb : b.untagged = b) :
    sum a.bare b.bare = (sum a b).map bare := by
  cases a with
  | tagged v m => exact absurd ha (untagged_ne_tagged _ _ _)
  | _ =>
    cases b with
    | tagged w m => exact absurd hb (untagged_ne_tagged _ _ _)
    | _ =>
      simp only [sum, bare, bareItems_eq, bareEntries_eq, onDecimals, asDecimal?, untagged,
        typeName, typeTag?, map_bare_ok, map_bare_error, List.map_append, List.map_cons,
        List.map_nil, bare_ofExact, OrderedMap.mapValues_merged, OrderedMap.mapValues_insert,
        OrderedMap.freshKey_mapValues, display_list_bare, display_map_bare]

theorem same_map_bare (v : Value) (entries : OrderedMap Value) :
    v.same (map (OrderedMap.mapValues bare entries)) = v.same (map entries) := by
  rw [← bare_map, same_bare_right]

theorem difference_bare {a b : Value} (ha : a.untagged = a) (hb : b.untagged = b) :
    difference a.bare b.bare = (difference a b).map bare := by
  cases a with
  | tagged v m => exact absurd ha (untagged_ne_tagged _ _ _)
  | _ =>
    cases b with
    | tagged w m => exact absurd hb (untagged_ne_tagged _ _ _)
    | _ =>
      simp only [difference, bare, bareItems_eq, bareEntries_eq, onDecimals, asDecimal?, untagged,
        typeName, typeTag?, map_bare_ok, map_bare_error, bare_ofExact,
        OrderedMap.mapValues_withoutKeys, OrderedMap.mapValues_erase, OrderedMap.keys_mapValues,
        display_list_bare, display_map_bare, List.filter_map, List.any_map, Function.comp_def,
        same_bare_left, same_bare_right, same_map_bare]

theorem map_repeatItems {α β : Type} (f : α → β) (times : Nat) (items : List α) :
    (repeatItems times items).map f = repeatItems times (items.map f) := by
  simp only [repeatItems, List.isEmpty_map]
  split
  · rfl
  · rw [List.map_flatten, List.map_replicate]

theorem product_bare {a b : Value} (ha : a.untagged = a) (hb : b.untagged = b) :
    product a.bare b.bare = (product a b).map bare := by
  cases a with
  | tagged v m => exact absurd ha (untagged_ne_tagged _ _ _)
  | _ =>
    cases b with
    | tagged w m => exact absurd hb (untagged_ne_tagged _ _ _)
    | _ =>
      simp only [product, bare, bareItems_eq, bareEntries_eq, onDecimals, asDecimal?, untagged,
        typeName, typeTag?, map_bare_ok, map_bare_error, map_bare_bind, apply_ite (Except.map bare),
        List.length_map, map_repeatItems, bare_decimalProduct]

theorem quotient_bare {a b : Value} (ha : a.untagged = a) (hb : b.untagged = b) :
    quotient a.bare b.bare = (quotient a b).map bare := by
  cases a with
  | tagged v m => exact absurd ha (untagged_ne_tagged _ _ _)
  | _ =>
    cases b with
    | tagged w m => exact absurd hb (untagged_ne_tagged _ _ _)
    | _ =>
      simp only [quotient, bare, onDecimals, asDecimal?, untagged, typeName, typeTag?, map_bare_ok,
        map_bare_error, apply_ite (Except.map bare), bare_ofExact, bare_signedInfinity,
        bare_byDivisor]

theorem remainder_bare {a b : Value} (ha : a.untagged = a) (hb : b.untagged = b) :
    remainder a.bare b.bare = (remainder a b).map bare := by
  cases a with
  | tagged v m => exact absurd ha (untagged_ne_tagged _ _ _)
  | _ =>
    cases b with
    | tagged w m => exact absurd hb (untagged_ne_tagged _ _ _)
    | _ =>
      simp only [remainder, bare, onDecimals, asDecimal?, untagged, typeName, typeTag?, map_bare_ok,
        map_bare_error, apply_ite (Except.map bare), bare_signedInfinity, bare_byDivisor]

/-- An operation passes an error operand on and is applied to concrete operands otherwise. -/
theorem passing_bare {f : Value → Value → Except EvalError Value} {l r : Value}
    (hf : f l.untagged.bare r.untagged.bare = (f l.untagged r.untagged).map bare) :
    (match errorOperand? l.bare.untagged r.bare.untagged with
      | some e => .ok e
      | none => f l.bare.untagged r.bare.untagged) =
    (match errorOperand? l.untagged r.untagged with
      | some e => .ok e
      | none => f l.untagged r.untagged : Except EvalError Value).map bare := by
  rw [untagged_bare, untagged_bare, ← bare_untagged l, ← bare_untagged r, errorOperand?_bare, hf]
  cases errorOperand? l.untagged r.untagged <;> rfl

theorem plus_bare (l r : Value) : plus l.bare r.bare = (plus l r).map bare := by
  have hl := untagged_untagged l
  have hr := untagged_untagged r
  refine passing_bare (f := fun a b => sum a.expandRange b.expandRange) ?_
  rw [expandRange_bare hl, expandRange_bare hr]
  exact sum_bare (untagged_expandRange hl) (untagged_expandRange hr)

theorem minus_bare (l r : Value) : minus l.bare r.bare = (minus l r).map bare := by
  have hl := untagged_untagged l
  refine passing_bare (f := fun a b => difference a.expandRange b) ?_
  rw [expandRange_bare hl]
  exact difference_bare (untagged_expandRange hl) (untagged_untagged r)

theorem multiply_bare (l r : Value) : multiply l.bare r.bare = (multiply l r).map bare :=
  passing_bare (product_bare (untagged_untagged l) (untagged_untagged r))

theorem divide_bare (l r : Value) : divide l.bare r.bare = (divide l r).map bare :=
  passing_bare (quotient_bare (untagged_untagged l) (untagged_untagged r))

theorem modulus_bare (l r : Value) : modulus l.bare r.bare = (modulus l r).map bare :=
  passing_bare (remainder_bare (untagged_untagged l) (untagged_untagged r))

theorem comparison_bare (test : Ordering → Bool) (l r : Value) :
    comparison test l.bare r.bare = (comparison test l r).bare := by
  simp only [comparison, isError_bare, compare?_bare, apply_ite bare, bare]

theorem equalTo_bare (l r : Value) : equalTo l.bare r.bare = (equalTo l r).bare := by
  simp only [equalTo, isError_bare, same_bare, apply_ite bare, bare]

theorem notEqualTo_of_equalTo_isError {l r : Value} (h : (equalTo l r).isError) :
    notEqualTo l r = equalTo l r := by
  unfold notEqualTo
  cases he : equalTo l r <;> first | rfl | simp [he, isError, asError?, untagged] at h

theorem notEqualTo_bare (l r : Value) : notEqualTo l.bare r.bare = (notEqualTo l r).bare := by
  by_cases h : (equalTo l r).isError
  · have hb : (equalTo l.bare r.bare).isError := by rw [equalTo_bare, isError_bare, h]
    rw [notEqualTo_of_equalTo_isError h, notEqualTo_of_equalTo_isError hb, equalTo_bare]
  · obtain ⟨b, hb⟩ : ∃ b, equalTo l r = bool b := by
      unfold equalTo at h ⊢
      grind
    simp [notEqualTo, equalTo_bare, hb, bare]

theorem negate_bare (v : Value) : v.bare.negate = v.negate.bare := by
  refine bare_of_untagged (f := negate) (g := fun v => v.negate.bare) (fun _ _ => rfl)
    (fun v hv => ?_) v
  cases v with
  | tagged v m => exact absurd hv (untagged_ne_tagged _ _ _)
  | int n => exact (bare_ofExact _ _).symm
  | list items => simp [negate, untagged]
  | map entries => simp [negate, untagged, OrderedMap.mapValues]
  | _ => rfl

theorem size_bare (v : Value) : v.bare.size = v.size.bare := by
  refine bare_of_untagged (f := size) (g := fun v => v.size.bare) (fun v m => ?_)
    (fun v hv => ?_) v
  · simp only [size, untagged_tagged]
    split <;> simp
  · cases v with
    | tagged v m => exact absurd hv (untagged_ne_tagged _ _ _)
    | list items => simp [size, untagged, ofSize, bare, bareItems_eq]
    | map entries => simp [size, untagged, ofSize, bare, bareEntries_eq]
    | _ => rfl

theorem logicalNot_bare (v : Value) : v.bare.logicalNot = v.logicalNot.bare := by
  refine bare_of_untagged (f := logicalNot) (g := fun v => v.logicalNot.bare) (fun v m => ?_)
    (fun v hv => ?_) v
  · simp only [logicalNot, untagged_tagged]
    split <;> simp
  · cases v with
    | tagged v m => exact absurd hv (untagged_ne_tagged _ _ _)
    | list items => simp [logicalNot, untagged, isTrue, bare, bareItems_eq]
    | map entries => simp [logicalNot, untagged, isTrue, bare, bareEntries_eq, OrderedMap.mapValues]
    | _ => rfl

end operators

end Value
end ReactiveScript
