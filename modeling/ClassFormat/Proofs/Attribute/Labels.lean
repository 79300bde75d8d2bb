import ClassFormat.Proofs.Attribute.Refusals
/-!
# Labels in code

Code mentions locations in its handlers and in the tables of line numbers among its attributes, and
so does code nested in it, at any depth. All of them are listed by `Code.locations`, in the order in
which they stand, and `Code.withoutLocations` is the code with each of them wiped out. The two
together are the whole code (`Code.eq_of_locations`), so what happens to code is known once it is
known what happens to its locations and that the rest stays.

Resolving maps every location through the placement (`Code.resolve_eq`). What holds of resolving one
location, that a second placement only decides what the first one left open, therefore holds of
resolving code. And where code that was resolved is refused because of an open location, the label
is one that the code mentions and the placement does not know.
-/

namespace ClassFormat

/-! ## One location -/

namespace Placement

variable {first second both : Placement} {label : Label}

/-- What becomes of a location when labels get their offsets. -/
inductive Settles (placement : Placement) : Location → Location → Prop where
  /-- A location that is an offset stays. -/
  | fixed (offset : Nat) : Settles placement (.fixed offset) (.fixed offset)
  /-- A label that is placed becomes its offset. -/
  | placed {label : Label} {offset : Nat} (h : placement.offset? label = some offset) :
    Settles placement (.pending label) (.fixed offset)
  /-- A label that is not placed stays. -/
  | unplaced {label : Label} (h : placement.offset? label = none) :
    Settles placement (.pending label) (.pending label)

/-- A placement settles a location as the one that resolving it gives. -/
theorem settles_iff {before after : Location} :
    first.Settles before after ↔ first.resolve before = after := by
  constructor
  · intro h
    cases h with
    | fixed offset => rfl
    | placed h => rw [resolve, h]
    | unplaced h => rw [resolve, h]
  · rintro rfl
    cases before with
    | fixed offset => exact .fixed offset
    | pending label =>
      cases hlabel : first.offset? label with
      | none =>
        rw [resolve, hlabel]
        exact .unplaced hlabel
      | some offset =>
        rw [resolve, hlabel]
        exact .placed hlabel

/-- Locations are settled one by one. -/
theorem forall₂_settles_iff {before after : List Location} :
    List.Forall₂ first.Settles before after ↔ after = before.map first.resolve := by
  induction before generalizing after with
  | nil => simp
  | cons place before ih =>
    cases after with
    | nil => simp
    | cons other after =>
      rw [List.forall₂_cons, settles_iff, ih, List.map_cons, List.cons.injEq]
      exact and_congr_left' eq_comm

/-- A label stays open exactly if it is not placed. -/
theorem resolve_eq_pending_iff {place : Location} : first.resolve place = .pending label
    ↔ place = .pending label ∧ first.offset? label = none := by
  rw [← settles_iff]
  constructor
  · rintro (_ | _ | hnone)
    exact ⟨rfl, hnone⟩
  · rintro ⟨rfl, hnone⟩
    exact .unplaced hnone

/-- Whether a placement places each label where the first of two does, or else the second. -/
def IsUnion (both first second : Placement) : Prop :=
  ∀ label, both.offset? label = (first.offset? label).or (second.offset? label)

/-- A placement is the union of itself with itself, which makes resolving idempotent. -/
theorem IsUnion.self (placement : Placement) : placement.IsUnion placement placement := by
  intro label
  rw [Option.or_self]

/-- Any two placements have a union. -/
theorem isUnion_union (first second : Placement) :
    IsUnion ⟨second.offsets ∪ first.offsets⟩ first second := by
  intro label
  exact Std.HashMap.getElem?_union

/-- The second placement decides only what the first one left open. -/
theorem IsUnion.resolve_resolve (h : both.IsUnion first second) (place : Location) :
    second.resolve (first.resolve place) = both.resolve place := by
  cases place with
  | fixed offset => rfl
  | pending label =>
    have hlabel := h label
    cases hfirst : first.offset? label with
    | none =>
      rw [hfirst, Option.none_or] at hlabel
      rw [resolve, hfirst, resolve, resolve, hlabel]
    | some offset =>
      rw [hfirst, Option.some_or] at hlabel
      rw [resolve, hfirst, resolve, resolve, hlabel]

/-- Labels are placed one after the other, the last time counting. -/
def bindAll (placement : Placement) (bindings : List (Label × Nat)) : Placement :=
  bindings.foldl (fun placement binding => placement.bind binding.1 binding.2) placement

/-- A binding answers for its own label and leaves the other labels as they were. -/
theorem offset?_bind (placement : Placement) (other : Label) (offset : Nat) (label : Label) :
    (placement.bind other offset).offset? label
      = if other = label then some offset else placement.offset? label := by
  unfold bind offset?
  rw [Std.HashMap.getElem?_insert]
  simp only [beq_iff_eq]

/-- Bindings made on top of a placement hide what it says, and only that. -/
theorem offset?_bindAll (placement : Placement) (bindings : List (Label × Nat)) (label : Label) :
    (placement.bindAll bindings).offset? label
      = (bindings.reverse.lookup label).or (placement.offset? label) := by
  induction bindings generalizing placement with
  | nil => rfl
  | cons binding bindings ih =>
    show ((placement.bind binding.1 binding.2).bindAll bindings).offset? label = _
    rw [ih, offset?_bind, List.reverse_cons, List.lookup_append]
    rw [List.lookup_cons]
    by_cases heq : binding.1 = label
    · simp [heq]
    · have hne : (label == binding.1) = false := beq_eq_false_iff_ne.mpr fun h => heq h.symm
      simp [heq, hne]

/-- Only the start of the code is bound before anything is placed. -/
theorem offset?_initial (label : Label) :
    initial.offset? label = if Label.start = label then some 0 else none := by
  unfold initial offset?
  rw [Std.HashMap.getElem?_insert]
  simp

/-- Placing the labels of one run on top of those of another run is a union of the two. -/
theorem isUnion_bindAll (bindings others : List (Label × Nat)) :
    IsUnion (initial.bindAll (others ++ (Label.start, 0) :: bindings))
      (initial.bindAll bindings) (initial.bindAll others) := by
  intro label
  have happend : initial.bindAll (others ++ (Label.start, 0) :: bindings)
      = ((initial.bindAll others).bind Label.start 0).bindAll bindings := List.foldl_append
  rw [happend, offset?_bindAll, offset?_bindAll initial bindings, offset?_bind, offset?_initial,
    Option.or_assoc]
  by_cases heq : Label.start = label <;> simp [heq]

end Placement

/-! ## The locations of code -/

/-- The protected range and the handler, in the order they are written. -/
def ExceptionHandler.locations (handler : ExceptionHandler) : List Location :=
  [handler.start, handler.stop, handler.target]

mutual

/-- The locations an attribute mentions are those of its payload. -/
def Attribute.locations : Attribute → List Location
  | ⟨_, payload⟩ => payload.locations

/-- The locations in a payload, with those of all attributes inside it. -/
def Payload.locations : Payload → List Location
  | .code body => body.locations
  | .lineNumbers lines => lines.map LineNumber.start
  | .exceptions _ | .localVariables _ | .constantValue _ | .sourceFile _ | .signature _
  | .bootstrapMethods _ | .methodParameters _ | .annotations _ _ | .parameterAnnotations _ _
  | .unknown _ => []

/-- The locations in the handlers of code, and in its attributes at any depth. -/
def Code.locations : Code → List Location
  | ⟨_, _, _, handlers, attributes⟩ =>
    handlers.flatMap ExceptionHandler.locations ++ attributesLocations attributes

/-- The locations of nested attributes, in the order of the attributes. -/
def attributesLocations : List Attribute → List Location
  | [] => []
  | attr :: others => attr.locations ++ attributesLocations others

end

/-- Whether a handler or a table of line numbers mentions a label, at any depth. -/
def Code.Mentions (body : Code) (label : Label) : Prop := .pending label ∈ body.locations

instance (body : Code) (label : Label) : Decidable (body.Mentions label) :=
  inferInstanceAs (Decidable (_ ∈ body.locations))

/-- The handler with its three locations replaced and its class kept. -/
def ExceptionHandler.mapLocations (f : Location → Location) (handler : ExceptionHandler) :
    ExceptionHandler :=
  { handler with start := f handler.start, stop := f handler.stop, target := f handler.target }

/-- The line with the place of its beginning replaced and its number kept. -/
def LineNumber.mapLocation (f : Location → Location) (line : LineNumber) : LineNumber :=
  { line with start := f line.start }

mutual

/-- The attribute with the locations of its payload replaced and its name kept. -/
def Attribute.mapLocations (f : Location → Location) : Attribute → Attribute
  | ⟨name, payload⟩ => ⟨name, payload.mapLocations f⟩

/-- Change each location of a payload, and nothing else. -/
def Payload.mapLocations (f : Location → Location) : Payload → Payload
  | .code body => .code (body.mapLocations f)
  | .lineNumbers lines => .lineNumbers (lines.map (LineNumber.mapLocation f))
  | payload => payload

/-- Change each location of code, and nothing else. -/
def Code.mapLocations (f : Location → Location) : Code → Code
  | ⟨maxStack, maxLocals, bytes, handlers, attributes⟩ =>
    ⟨maxStack, maxLocals, bytes, handlers.map (ExceptionHandler.mapLocations f),
      mapAttributesLocations f attributes⟩

/-- The replacement in each of the nested attributes. -/
def mapAttributesLocations (f : Location → Location) : List Attribute → List Attribute
  | [] => []
  | attr :: others => attr.mapLocations f :: mapAttributesLocations f others

end

/-- Code with its locations wiped out. -/
def Code.withoutLocations (body : Code) : Code := body.mapLocations fun _ => .fixed 0

theorem attributesLocations_eq (attributes : List Attribute) :
    attributesLocations attributes = attributes.flatMap (·.payload.locations) := by
  induction attributes with
  | nil => rfl
  | cons attr attributes ih =>
    obtain ⟨name, payload⟩ := attr
    rw [attributesLocations, ih, List.flatMap_cons]
    rfl

theorem mapAttributesLocations_eq (f : Location → Location) (attributes : List Attribute) :
    mapAttributesLocations f attributes
      = attributes.map fun attr => ⟨attr.name, attr.payload.mapLocations f⟩ := by
  induction attributes with
  | nil => rfl
  | cons attr attributes ih =>
    obtain ⟨name, payload⟩ := attr
    rw [mapAttributesLocations, ih, List.map_cons]
    rfl

/-- The loop over the nested attributes, its accumulator taken away. -/
theorem resolveAttributes_eq (placement : Placement) (resolved attributes : List Attribute) :
    resolveAttributes placement resolved attributes = resolved.reverse
      ++ attributes.map fun attr => ⟨attr.name, attr.payload.resolve placement⟩ := by
  induction attributes generalizing resolved with
  | nil => rw [resolveAttributes, List.map_nil, List.append_nil]
  | cons attr attributes ih =>
    obtain ⟨name, payload⟩ := attr
    rw [resolveAttributes, ih, List.reverse_cons, List.append_assoc, List.map_cons]
    rfl

/-- The locations of a code: those of its handlers first, then those of its attributes. -/
theorem Code.locations_eq (body : Code) : body.locations
    = body.handlers.flatMap ExceptionHandler.locations
      ++ body.attributes.flatMap (·.payload.locations) := by
  obtain ⟨maxStack, maxLocals, bytes, handlers, attributes⟩ := body
  unfold locations
  rw [attributesLocations_eq]

/-- Of a code the handlers and the attributes change, the limits and the bytes do not. -/
theorem Code.mapLocations_eq (f : Location → Location) (body : Code) : body.mapLocations f
    = ⟨body.maxStack, body.maxLocals, body.bytes,
        body.handlers.map (ExceptionHandler.mapLocations f),
        body.attributes.map fun attr => ⟨attr.name, attr.payload.mapLocations f⟩⟩ := by
  obtain ⟨maxStack, maxLocals, bytes, handlers, attributes⟩ := body
  unfold mapLocations
  rw [mapAttributesLocations_eq]

/-- What passes from the attributes of code to the code holds of every payload, if it holds of line
numbers and of the payloads that have no locations. -/
@[elab_as_elim]
theorem Payload.locationInduction {P : Payload → Prop}
    (code : ∀ body : Code, (∀ attr ∈ body.attributes, P attr.payload) → P (.code body))
    (lineNumbers : ∀ lines, P (.lineNumbers lines))
    (other : ∀ payload : Payload, payload.locations = [] → (∀ f, payload.mapLocations f = payload) →
      (∀ placement, payload.resolve placement = payload) → P payload) (payload : Payload) :
    P payload := by
  have hstep : ∀ payload : Payload, (∀ nested ∈ payload.attributes, P nested.payload) →
      P payload := by
    intro payload hnested
    cases payload with
    | code body => exact code body hnested
    | lineNumbers lines => exact lineNumbers lines
    | _ => exact other _ rfl (fun _ => rfl) fun _ => rfl
  have hall : ∀ attr : Attribute, P attr.payload := by
    intro attr
    induction attr using Attribute.nestedInduction with
    | step attr ih => exact hstep attr.payload ih
  exact hstep payload fun nested _ => hall nested

/-! ## Changing locations -/

/-- Replacing the locations of a handler replaces exactly the ones it lists. -/
theorem ExceptionHandler.locations_mapLocations (f : Location → Location)
    (handler : ExceptionHandler) :
    (handler.mapLocations f).locations = handler.locations.map f := rfl

/-- Replacing the locations of line numbers replaces where each of them begins. -/
theorem LineNumber.start_mapLocation (f : Location → Location) (lines : List LineNumber) :
    (lines.map (LineNumber.mapLocation f)).map start = (lines.map start).map f := by
  rw [List.map_map, List.map_map]
  rfl

/-- At every depth, the locations after a replacement are the replaced locations. -/
theorem Payload.locations_mapLocations (f : Location → Location) (payload : Payload) :
    (payload.mapLocations f).locations = payload.locations.map f := by
  induction payload using locationInduction with
  | code body ih =>
    show (body.mapLocations f).locations = body.locations.map f
    rw [Code.mapLocations_eq, Code.locations_eq, Code.locations_eq, List.map_append,
      List.map_flatMap, List.map_flatMap, List.flatMap_map, List.flatMap_map]
    congr 1
    exact List.flatMap_congr fun attr hattr => ih attr hattr
  | lineNumbers lines => exact LineNumber.start_mapLocation f lines
  | other payload hnone hmap hresolve =>
    rw [hmap, hnone]
    rfl

/-- Changing locations twice is changing them once. -/
theorem Payload.mapLocations_mapLocations (f g : Location → Location) (payload : Payload) :
    (payload.mapLocations f).mapLocations g = payload.mapLocations (g ∘ f) := by
  induction payload using locationInduction with
  | code body ih =>
    show Payload.code ((body.mapLocations f).mapLocations g) = .code (body.mapLocations (g ∘ f))
    simp only [Code.mapLocations_eq, List.map_map]
    congr 2
    apply List.map_congr_left
    intro attr hattr
    show Attribute.mk attr.name ((attr.payload.mapLocations f).mapLocations g) = _
    rw [ih attr hattr]
  | lineNumbers lines =>
    show Payload.lineNumbers ((lines.map _).map _) = .lineNumbers (lines.map _)
    rw [List.map_map]
    rfl
  | other payload hnone hmap hresolve => rw [hmap, hmap, hmap]

/-- Only what becomes of the locations that are there counts. -/
theorem Payload.mapLocations_congr {f g : Location → Location} {payload : Payload}
    (h : ∀ place ∈ payload.locations, f place = g place) :
    payload.mapLocations f = payload.mapLocations g := by
  induction payload using locationInduction with
  | code body ih =>
    have hplaces : ∀ place ∈ body.locations, f place = g place := h
    rw [Code.locations_eq, List.forall_mem_append, List.forall_mem_flatMap,
      List.forall_mem_flatMap] at hplaces
    obtain ⟨hhandlers, hattributes⟩ := hplaces
    show Payload.code (body.mapLocations f) = .code (body.mapLocations g)
    rw [Code.mapLocations_eq, Code.mapLocations_eq]
    congr 2
    · apply List.map_congr_left
      intro handler hmem
      have hhandler := hhandlers handler hmem
      simp only [ExceptionHandler.locations, List.forall_mem_cons] at hhandler
      obtain ⟨hstart, hstop, htarget, -⟩ := hhandler
      rw [ExceptionHandler.mapLocations, hstart, hstop, htarget]
      rfl
    · apply List.map_congr_left
      intro attr hmem
      rw [ih attr hmem (hattributes attr hmem)]
  | lineNumbers lines =>
    show Payload.lineNumbers _ = .lineNumbers _
    congr 1
    apply List.map_congr_left
    intro line hmem
    rw [LineNumber.mapLocation, h line.start (List.mem_map_of_mem hmem)]
    rfl
  | other payload hnone hmap hresolve => rw [hmap, hmap]

/-- Resolving finds every location. -/
theorem Payload.resolve_eq (placement : Placement) (payload : Payload) :
    payload.resolve placement = payload.mapLocations placement.resolve := by
  induction payload using locationInduction with
  | code body ih =>
    show Payload.code (body.resolve placement) = .code (body.mapLocations placement.resolve)
    obtain ⟨maxStack, maxLocals, bytes, handlers, attributes⟩ := body
    rw [Code.resolve, resolveAttributes_eq, Code.mapLocations_eq]
    congr 2
    apply List.map_congr_left
    intro attr hattr
    rw [ih attr hattr]
  | lineNumbers lines => rfl
  | other payload hnone hmap hresolve => rw [hmap, hresolve]

/-! ### Nothing besides locations and the rest -/

/-- Lists are the same if their elements are the same but for some parts, and so are all the parts
one after the other. -/
theorem eq_of_map_of_flatMap {α β γ : Type} {rest : α → β} {parts : α → List γ} {xs ys : List α}
    (hlength : ∀ x y, rest x = rest y → (parts x).length = (parts y).length)
    (hext : ∀ x ∈ xs, ∀ y, rest x = rest y → parts x = parts y → x = y)
    (hrest : xs.map rest = ys.map rest) (hparts : xs.flatMap parts = ys.flatMap parts) :
    xs = ys := by
  induction xs generalizing ys with
  | nil => exact (List.map_eq_nil_iff.mp hrest.symm).symm
  | cons x xs ih =>
    cases ys with
    | nil => cases hrest
    | cons y ys =>
      rw [List.map_cons, List.map_cons, List.cons.injEq] at hrest
      rw [List.flatMap_cons, List.flatMap_cons] at hparts
      obtain ⟨hfirst, hothers⟩ := List.append_inj hparts (hlength x y hrest.1)
      rw [List.forall_mem_cons] at hext
      rw [hext.1 y hrest.1 hfirst, ih hext.2 hrest.2 hothers]

/-- Wiping out locations leaves as many as there were. -/
theorem Payload.length_locations_congr {f : Location → Location} {payload other : Payload}
    (h : payload.mapLocations f = other.mapLocations f) :
    payload.locations.length = other.locations.length := by
  have hplaces := congrArg (fun changed => changed.locations.length) h
  simp only [locations_mapLocations, List.length_map] at hplaces
  exact hplaces

/-- A payload is rebuilt from its parts: replacing nothing changes nothing. -/
theorem Payload.mapLocations_id (payload : Payload) : payload.mapLocations id = payload := by
  induction payload using locationInduction with
  | code body ih =>
    have hhandlers : body.handlers.map (ExceptionHandler.mapLocations id) = body.handlers :=
      List.map_id body.handlers
    have hattributes : (body.attributes.map fun attr =>
        Attribute.mk attr.name (attr.payload.mapLocations id)) = body.attributes := by
      conv_rhs => rw [← List.map_id body.attributes]
      apply List.map_congr_left
      intro attr hattr
      rw [ih attr hattr]
      cases attr
      rfl
    show Payload.code (body.mapLocations id) = .code body
    rw [Code.mapLocations_eq, hhandlers, hattributes]
    cases body
    rfl
  | lineNumbers lines => exact congrArg Payload.lineNumbers (List.map_id lines)
  | other payload hnone hmap hresolve => exact hmap id

/-- Beside its locations a handler holds nothing that a replacement changes. -/
theorem ExceptionHandler.eq_of_locations {f : Location → Location}
    {handler other : ExceptionHandler} (hrest : handler.mapLocations f = other.mapLocations f)
    (hplaces : handler.locations = other.locations) : handler = other := by
  obtain ⟨start, stop, target, catchType⟩ := handler
  obtain ⟨start', stop', target', catchType'⟩ := other
  have htype : catchType = catchType' := congrArg ExceptionHandler.catchType hrest
  simp only [locations, List.cons.injEq, and_true] at hplaces
  obtain ⟨rfl, rfl, rfl⟩ := hplaces
  rw [htype]

/-- Beside its beginning a line number holds nothing that a replacement changes. -/
theorem LineNumber.eq_of_start {f : Location → Location} {line other : LineNumber}
    (hrest : line.mapLocation f = other.mapLocation f) (hstart : line.start = other.start) :
    line = other := by
  obtain ⟨start, number⟩ := line
  obtain ⟨start', number'⟩ := other
  have hnumber : number = number' := congrArg LineNumber.line hrest
  have hsame : start = start' := hstart
  rw [hsame, hnumber]

/-- Every handler lists three locations, so a list of them determines each one's share. -/
theorem length_flatMap_locations (handlers : List ExceptionHandler) :
    (handlers.flatMap ExceptionHandler.locations).length = 3 * handlers.length := by
  rw [List.length_flatMap]
  show (handlers.map fun _ => 3).sum = _
  rw [List.map_const', List.sum_replicate_nat, Nat.mul_comm]

/-- A payload is known by its locations and what is left without them. -/
theorem Payload.eq_of_locations {f : Location → Location} {payload other : Payload}
    (hrest : payload.mapLocations f = other.mapLocations f)
    (hplaces : payload.locations = other.locations) : payload = other := by
  induction payload using locationInduction generalizing other with
  | code body ih =>
    cases other with
    | code second =>
      have hcode : body.mapLocations f = second.mapLocations f := Payload.code.inj hrest
      have hlocations : body.locations = second.locations := hplaces
      rw [Code.mapLocations_eq, Code.mapLocations_eq, Code.mk.injEq] at hcode
      obtain ⟨hstack, hlocals, hbytes, hhandlers, hattributes⟩ := hcode
      rw [Code.locations_eq, Code.locations_eq] at hlocations
      -- As many handlers, so the locations of the handlers end at the same place.
      have hcount : body.handlers.length = second.handlers.length := by
        have hlength := congrArg List.length hhandlers
        rw [List.length_map, List.length_map] at hlength
        exact hlength
      obtain ⟨hfirst, hsecond⟩ := List.append_inj hlocations (by
        rw [length_flatMap_locations, length_flatMap_locations, hcount])
      have hsame : body.handlers = second.handlers :=
        eq_of_map_of_flatMap (fun _ _ _ => rfl)
          (fun _ _ _ => ExceptionHandler.eq_of_locations) hhandlers hfirst
      have hnested : body.attributes = second.attributes := by
        refine eq_of_map_of_flatMap (fun attr nested heq => ?_)
          (fun attr hattr nested heq hin => ?_) hattributes hsecond
        · exact length_locations_congr (congrArg Attribute.payload heq)
        · have hpayload := ih attr hattr (congrArg Attribute.payload heq) hin
          obtain ⟨name, payload⟩ := attr
          obtain ⟨name', payload'⟩ := nested
          exact congrArg₂ Attribute.mk (Attribute.mk.inj heq).1 hpayload
      obtain ⟨maxStack, maxLocals, bytes, handlers, attributes⟩ := body
      obtain ⟨maxStack', maxLocals', bytes', handlers', attributes'⟩ := second
      simp only at hstack hlocals hbytes hsame hnested
      rw [hstack, hlocals, hbytes, hsame, hnested]
    | _ => cases hrest
  | lineNumbers lines =>
    cases other with
    | lineNumbers second =>
      have hlines : lines.map (LineNumber.mapLocation f) = second.map (LineNumber.mapLocation f) :=
        Payload.lineNumbers.inj hrest
      have hstarts : lines.flatMap (fun line => [line.start])
          = second.flatMap (fun line => [line.start]) := by
        rw [← List.map_eq_flatMap, ← List.map_eq_flatMap]
        exact hplaces
      refine congrArg Payload.lineNumbers (eq_of_map_of_flatMap (fun _ _ _ => rfl)
        (fun _ _ _ heq hin => ?_) hlines hstarts)
      exact LineNumber.eq_of_start heq (List.singleton_inj.mp hin)
    | _ => cases hrest
  | other payload hnone hmap hresolve =>
    rw [hmap] at hrest
    rw [hnone] at hplaces
    rw [hrest, ← other.mapLocations_id, mapLocations_mapLocations]
    apply mapLocations_congr
    rw [← hplaces]
    intro place hplace
    cases hplace

namespace Code

variable {first second both : Placement} {body other : Code}

/-- Resolving a code is the replacement of its locations by what the placement makes of them. -/
theorem resolve_eq (placement : Placement) (body : Code) :
    body.resolve placement = body.mapLocations placement.resolve :=
  Payload.code.inj ((Payload.code body).resolve_eq placement)

/-- The locations of a code after a replacement are its locations, replaced one by one. -/
theorem locations_mapLocations (f : Location → Location) (body : Code) :
    (body.mapLocations f).locations = body.locations.map f :=
  (Payload.code body).locations_mapLocations f

/-- Two replacements in a row are the one that composes them. -/
theorem mapLocations_mapLocations (f g : Location → Location) (body : Code) :
    (body.mapLocations f).mapLocations g = body.mapLocations (g ∘ f) :=
  Payload.code.inj ((Payload.code body).mapLocations_mapLocations f g)

/-- Replacements that agree on the locations a code mentions make the same code of it. -/
theorem mapLocations_congr {f g : Location → Location}
    (h : ∀ place ∈ body.locations, f place = g place) :
    body.mapLocations f = body.mapLocations g := by
  have hpayload : (Payload.code body).mapLocations f = (Payload.code body).mapLocations g :=
    Payload.mapLocations_congr h
  exact Payload.code.inj hpayload

/-- Code is known by its locations and what is left without them. -/
theorem eq_of_locations (hrest : body.withoutLocations = other.withoutLocations)
    (hplaces : body.locations = other.locations) : body = other := by
  have hpayload : Payload.code body = .code other :=
    Payload.eq_of_locations (congrArg Payload.code hrest) hplaces
  exact Payload.code.inj hpayload

/-- A replacement of the locations leaves all the rest of a code as it was. -/
theorem withoutLocations_mapLocations (f : Location → Location) (body : Code) :
    (body.mapLocations f).withoutLocations = body.withoutLocations :=
  mapLocations_mapLocations f _ body

/-- Resolved code is the code whose locations are settled one by one, all else being the same. -/
theorem eq_resolve_iff : other = body.resolve first
    ↔ other.withoutLocations = body.withoutLocations
      ∧ List.Forall₂ first.Settles body.locations other.locations := by
  rw [Placement.forall₂_settles_iff, resolve_eq]
  constructor
  · rintro rfl
    exact ⟨withoutLocations_mapLocations _ _, locations_mapLocations _ _⟩
  · rintro ⟨hrest, hplaces⟩
    refine eq_of_locations ?_ ?_
    · rw [hrest, withoutLocations_mapLocations]
    · rw [hplaces, locations_mapLocations]

/-- Resolving twice is resolving once, with a union of the placements. -/
theorem resolve_resolve (h : both.IsUnion first second) (body : Code) :
    (body.resolve first).resolve second = body.resolve both := by
  rw [resolve_eq, resolve_eq, resolve_eq, mapLocations_mapLocations]
  apply mapLocations_congr
  intro place _
  exact h.resolve_resolve place

/-- Only the labels that are mentioned count. -/
theorem resolve_congr
    (h : ∀ label, body.Mentions label → second.offset? label = first.offset? label) :
    body.resolve second = body.resolve first := by
  rw [resolve_eq, resolve_eq]
  apply mapLocations_congr
  intro place hplace
  cases place with
  | fixed offset => rfl
  | pending label => rw [Placement.resolve, Placement.resolve, h label hplace]

/-- A label is still mentioned after resolving exactly if it was and it is not placed. -/
theorem mentions_resolve_iff {label : Label} : (body.resolve first).Mentions label
    ↔ body.Mentions label ∧ first.offset? label = none := by
  unfold Mentions
  rw [resolve_eq, locations_mapLocations, List.mem_map]
  simp only [Placement.resolve_eq_pending_iff]
  constructor
  · rintro ⟨place, hplace, rfl, hnone⟩
    exact ⟨hplace, hnone⟩
  · rintro ⟨hplace, hnone⟩
    exact ⟨_, hplace, rfl, hnone⟩

end Code

/-! ## Writing code with open locations -/

section

variable {place : Location}

mutual

/-- Annotations have no locations. -/
theorem ElementValue.location_notMem (place : Location) :
    ∀ value : ElementValue, .location place ∉ value.demands
  | .constant tag value => by simp [ElementValue.demands]
  | .enumConstant type name => by simp [ElementValue.demands]
  | .classInfo descriptor => by simp [ElementValue.demands]
  | .nested value => value.location_notMem place
  | .array values => by
    rw [ElementValue.demands, List.mem_cons, valuesDemands_eq, List.mem_flatMap]
    rintro (hcount | ⟨value, hvalue, hmem⟩)
    · cases hcount
    · exact location_notMem_values place values value hvalue hmem

theorem location_notMem_values (place : Location) :
    ∀ values : List ElementValue, ∀ value ∈ values, .location place ∉ value.demands
  | [] => fun _ hvalue => nomatch hvalue
  | value :: others => List.forall_mem_cons.mpr
    ⟨value.location_notMem place, location_notMem_values place others⟩

/-- No part of an annotation asks for a location. -/
theorem Annotation.location_notMem (place : Location) :
    ∀ whole : Annotation, .location place ∉ whole.demands
  | ⟨type, elements⟩ => by
    unfold Annotation.demands
    rw [List.mem_cons, List.mem_cons, elementsDemands_eq, List.mem_flatMap]
    rintro (hhandle | hcount | ⟨element, helement, hmem⟩)
    · cases hhandle
    · cases hcount
    · exact location_notMem_elements place elements element helement hmem

theorem location_notMem_elements (place : Location) :
    ∀ elements : List AnnotationElement, ∀ element ∈ elements, .location place ∉ element.demands
  | [] => fun _ helement => nomatch helement
  | element :: others => List.forall_mem_cons.mpr
    ⟨element.location_notMem place, location_notMem_elements place others⟩

theorem AnnotationElement.location_notMem (place : Location) :
    ∀ element : AnnotationElement, .location place ∉ element.demands
  | ⟨name, value⟩ => by
    rw [AnnotationElement.demands, List.mem_cons]
    rintro (hhandle | hmem)
    · cases hhandle
    · exact value.location_notMem place hmem

end

/-- Annotations never keep a code with unplaced labels from being written. -/
theorem location_notMem_annotationsDemands (annotations : List Annotation) :
    .location place ∉ annotationsDemands annotations := by
  rw [annotationsDemands, List.mem_cons, List.mem_flatMap]
  rintro (hcount | ⟨whole, -, hmem⟩)
  · cases hcount
  · exact whole.location_notMem place hmem

/-- The locations that writing a payload asks for are in it. -/
theorem Payload.mem_locations_of_demands {payload : Payload}
    (h : .location place ∈ payload.demands) : place ∈ payload.locations := by
  cases payload with
  | code body =>
    show place ∈ body.locations
    rw [demands] at h
    simp only [List.mem_cons, reduceCtorEq, List.mem_flatMap, false_or] at h
    obtain ⟨handler, hhandler, hmem⟩ := h
    rw [Code.locations_eq, List.mem_append, List.mem_flatMap]
    refine .inl ⟨handler, hhandler, ?_⟩
    simpa [ExceptionHandler.demands, ExceptionHandler.locations] using hmem
  | lineNumbers lines =>
    show place ∈ lines.map LineNumber.start
    rw [demands] at h
    simp only [List.mem_cons, reduceCtorEq, List.mem_flatMap, false_or] at h
    obtain ⟨line, hline, hmem⟩ := h
    rw [LineNumber.demands, List.mem_singleton, Demand.location.injEq] at hmem
    rw [hmem]
    exact List.mem_map_of_mem hline
  | localVariables table =>
    exfalso
    simp [demands, LocalVariableTable.demands, VariableEntry.demands] at h
  | bootstrapMethods methods =>
    exfalso
    simp [demands, BootstrapMethod.demands] at h
  | methodParameters parameters =>
    exfalso
    simp [demands, MethodParameter.demands] at h
  | annotations visibility group => exact absurd h (location_notMem_annotationsDemands group)
  | parameterAnnotations visibility groups =>
    rw [demands, List.mem_cons, List.mem_flatMap] at h
    rcases h with hcount | ⟨group, -, hmem⟩
    · cases hcount
    · exact absurd hmem (location_notMem_annotationsDemands group)
  | _ =>
    exfalso
    simp [demands] at h

/-- A location that an attribute asks for is one that it lists. -/
theorem Attribute.mem_locations_of_allDemands {attr : Attribute}
    (h : .location place ∈ attr.allDemands) : place ∈ attr.payload.locations := by
  induction attr using Attribute.nestedInduction with
  | step attr ih =>
    rcases mem_allDemands_iff.mp h with hown | ⟨nested, hnested, hmem⟩
    · simp only [demands, List.mem_cons, reduceCtorEq, false_or] at hown
      exact Payload.mem_locations_of_demands hown
    · obtain ⟨name, payload⟩ := attr
      cases payload with
      | code body =>
        show place ∈ body.locations
        rw [Code.locations_eq, List.mem_append, List.mem_flatMap, List.mem_flatMap]
        exact .inr ⟨nested, hnested, ih nested hnested hmem⟩
      | _ => cases hnested

/-- Code that is refused for an open location mentions a label. -/
theorem Code.exists_mentions_of_encode {indices : Indices} {body : Code} {what : Quantity}
    (h : body.encode indices = .error (.unresolvedLocation what)) :
    ∃ label, body.Mentions label := by
  have hgovern : Demand.Govern indices (fun _ => True) _ (body.encode indices) :=
    Code.govern_encode fun attr _ => Attribute.govern_encode fun _ _ _ _ => trivial
  obtain ⟨demand, hdemand, hrefuses⟩ := hgovern.exists_refused h
  cases hrefuses with
  | @unresolved _ label =>
    refine ⟨label, ?_⟩
    rw [List.mem_append, List.mem_flatMap] at hdemand
    rcases hdemand with hown | ⟨attr, hattr, hmem⟩
    · exact Payload.mem_locations_of_demands hown
    · rw [Mentions, Code.locations_eq, List.mem_append, List.mem_flatMap, List.mem_flatMap]
      exact .inr ⟨attr, hattr, Attribute.mem_locations_of_allDemands hmem⟩

end

/-! ## Resolving -/

end ClassFormat
