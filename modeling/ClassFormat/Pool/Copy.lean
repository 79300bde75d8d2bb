import ClassFormat.Pool.Basic
/-!
# Copying constants between pools

To copy a constant into another pool, the constants that it refers to are copied first. All of them
are interned there, so what the other pool already has is found again.

References never form a cycle: a constant that was added refers to ones added before it, and among
those read from a file references go at most three deep. So the number of constants and three more
bound how deep the references of any constant go.
-/

namespace ClassFormat.Pool

/-- Copy a constant and, at most `depth` references deep, all that it refers to. -/
def copyFrom (source : Pool) : Nat → ConstantId → Edit ConstantId
  | 0, id => throw (.foreignConstant id)
  | depth + 1, id => do
    let constant ← (source.constant id : Except Error Constant)
    let copy ← constant.mapReferencesM (copyFrom source depth)
    add copy

/-- Copy a constant of another pool, with all that it refers to. -/
def copy (source : Pool) (id : ConstantId) : Edit ConstantId := copyFrom source (source.size + 4) id

def copyUtf8 (source : Pool) (id : Utf8Id) : Edit Utf8Id := Utf8Id.mk <$> copy source id.id

def copyClass (source : Pool) (id : ClassId) : Edit ClassId := ClassId.mk <$> copy source id.id

def copyNameAndType (source : Pool) (id : NameAndTypeId) : Edit NameAndTypeId :=
  NameAndTypeId.mk <$> copy source id.id

end ClassFormat.Pool
