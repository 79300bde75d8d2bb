import ClassFormat.Attribute.Basic
import ClassFormat.Outline.Code
/-!
# Outlines of attributes

An attribute is shown with its kind, the index of its name, its length and what its payload says.
-/

namespace ClassFormat

/-! ## Annotations -/

mutual

def ElementValue.outline (view : ConstantView) : ElementValue → Outline
  | .constant tag value =>
    .record [("tag", tag), ("kind", "Constant"), ("value", view value)]
  | .enumConstant type name =>
    .record
      [("tag", ElementValue.enumTag), ("kind", "Enum"), ("type", view type.id),
        ("const", view name.id)]
  | .classInfo descriptor =>
    .record [("tag", ElementValue.classTag), ("kind", "Class"), ("value", view descriptor.id)]
  | .nested value =>
    .record
      [("tag", ElementValue.annotationTag), ("kind", "Annotation"),
        ("annotation", value.outline view)]
  | .array values =>
    .record
      [("tag", ElementValue.arrayTag), ("kind", "Array"),
        ("values", .list (valueOutlines view [] values))]

/-- Outlines of some values behind those already made (last one first). -/
def valueOutlines (view : ConstantView) (made : List Outline) : List ElementValue → List Outline
  | [] => made.reverse
  | value :: others => valueOutlines view (value.outline view :: made) others

def Annotation.outline (view : ConstantView) : Annotation → Outline
  | ⟨type, elements⟩ =>
    .record [("type", view type.id), ("elements", .list (elementOutlines view [] elements))]

/-- Outlines of some elements behind those already made (last one first). -/
def elementOutlines (view : ConstantView) (made : List Outline) :
    List AnnotationElement → List Outline
  | [] => made.reverse
  | element :: others => elementOutlines view (element.outline view :: made) others

def AnnotationElement.outline (view : ConstantView) : AnnotationElement → Outline
  | ⟨name, value⟩ => .record [("name", view name.id), ("value", value.outline view)]

end

def annotationsOutline (view : ConstantView) (annotations : List Annotation) : Outline :=
  .ofList (fun annotation => annotation.outline view) annotations

/-! ## Tables -/

def VariableEntry.outline (view : ConstantView) (entry : VariableEntry Span) : Outline :=
  .record
    [("name", view entry.name.id), ("descriptor", view entry.descriptor.id),
      ("type", entry.type.outline), ("slot", entry.slot),
      ("ranges", .ofList Span.outline entry.ranges)]

/-- The entries of a table and its length. -/
def LocalVariableTable.outlineFields (view : ConstantView) (table : LocalVariableTable) :
    List (String × Outline) :=
  [("length", table.length), ("entries", .ofList (VariableEntry.outline view) table.entries)]

def LineNumber.outline (line : LineNumber) : Outline := .list [line.start.outline, line.line]

def BootstrapMethod.outline (view : ConstantView) (method : BootstrapMethod) : Outline :=
  .record [("handle", view method.handle), ("arguments", .ofList view method.arguments)]

def MethodParameter.outline (view : ConstantView) (parameter : MethodParameter) : Outline :=
  .record
    [("name", .ofOption (fun id => view id.id) parameter.name), ("access", parameter.flags.bits)]

/-! ## Attributes -/

mutual

/-- What a payload says, apart from its kind and length. -/
def Payload.contentFields (view : ConstantView) : Payload → List (String × Outline)
  | .code body => body.contentFields view
  | .exceptions classes => [("classes", .ofList (fun id => view id.id) classes)]
  | .localVariables table => table.outlineFields view
  | .lineNumbers lines => [("lines", .ofList LineNumber.outline lines)]
  | .constantValue value => [("value", view value)]
  | .sourceFile name => [("value", view name.id)]
  | .signature text => [("value", view text.id)]
  | .bootstrapMethods methods => [("methods", .ofList (BootstrapMethod.outline view) methods)]
  | .methodParameters parameters =>
    [("parameters", .ofList (MethodParameter.outline view) parameters)]
  | .annotations _ annotations => [("annotations", annotationsOutline view annotations)]
  | .parameterAnnotations _ parameters =>
    [("parameters", .ofList (annotationsOutline view) parameters)]
  | .unknown data => [("data", .ofBytes data)]

/-- What code says. How many line numbers and local variables it knows is shown, too. -/
def Code.contentFields (view : ConstantView) : Code → List (String × Outline)
  | ⟨maxStack, maxLocals, bytes, handlers, attributes⟩ =>
    let body : Code := ⟨maxStack, maxLocals, bytes, handlers, attributes⟩
    [("max_stack", maxStack), ("max_locals", maxLocals), ("code", .ofBytes bytes),
      ("handlers", .ofList (ExceptionHandler.outline view) handlers),
      ("attributes", .list (attributeOutlines view [] attributes)),
      ("has_lines", .ofOption (fun lines => lines.length) body.lineNumbers?),
      ("has_locals", .ofOption (fun table => table.entries.length) body.localVariables?)]

/-- Outlines of some attributes behind those already made (last one first). -/
def attributeOutlines (view : ConstantView) (made : List Outline) :
    List Attribute → List Outline
  | [] => made.reverse
  | attr :: others => attributeOutlines view (attr.outline view :: made) others

def Attribute.outline (view : ConstantView) : Attribute → Outline
  | ⟨name, payload⟩ =>
    .record (("name", view name.id) :: ("kind", payload.kindName) :: ("length", payload.length)
      :: payload.contentFields view)

end

/-- A payload by itself. -/
def Payload.outline (view : ConstantView) (payload : Payload) : Outline :=
  .record (("kind", payload.kindName) :: ("length", payload.length)
    :: payload.contentFields view)

def attributesOutline (view : ConstantView) (attributes : List Attribute) : Outline :=
  .list (attributeOutlines view [] attributes)

end ClassFormat
