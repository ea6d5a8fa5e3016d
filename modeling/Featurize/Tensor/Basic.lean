import Featurize.Fault

/-!
Tensors: a shape and its elements in row-major order. The number of elements is
the shape's element count and every size is a word; both are kept by the type,
so a tensor is built only through the functions here. Elements that disagree
with the shape in number are refused.

Positions outside the storage read as zero. Only where sizes multiply to more than
a word holds do identity matrices, one-hot codes, outer products and joined tensors
come to such positions, and there the program is undefined: what they give for
those shapes says nothing.
-/

namespace Featurize

/-- A dense tensor of doubles. -/
structure Tensor where
  shape : Shape
  data : Array Double
  sizes_lt : ∀ size ∈ shape, size < Word.modulus
  data_size : data.size = shape.elementCount

def Shape.words (shape : Shape) : Shape := shape.map Word.wrap

theorem Shape.words_lt (shape : Shape) : ∀ size ∈ shape.words, size < Word.modulus := by
  intro size member
  obtain ⟨count, _present, same⟩ := List.mem_map.mp member
  exact same ▸ Word.wrap_lt count

theorem Shape.words_of_lt {shape : Shape} (small : ∀ size ∈ shape, size < Word.modulus) :
    shape.words = shape := by
  induction shape with
  | nil => rfl
  | cons size sizes ih =>
      have head := Word.wrap_of_lt (small size (List.mem_cons_self ..))
      have tail := ih (fun other member => small other (List.mem_cons_of_mem _ member))
      unfold Shape.words at tail ⊢
      rw [List.map_cons, head, tail]

namespace Tensor

theorem ext_of_fields {left right : Tensor} (sameShape : left.shape = right.shape)
    (sameData : left.data = right.data) : left = right := by
  cases left
  cases right
  simp only at sameShape sameData
  subst sameShape
  subst sameData
  rfl

def rank (tensor : Tensor) : Nat := tensor.shape.length

def size (tensor : Tensor) : Nat := tensor.data.size

/-- The element at a position in storage; positions outside hold zero. -/
def get (tensor : Tensor) (position : Nat) : Double := tensor.data[position]?.getD 0.0

/-- The element at a row and column, for a tensor whose second axis counts columns. -/
def cell (tensor : Tensor) (row column : Nat) : Double :=
  tensor.get (Word.wrap (row * tensor.shape.getD 1 0 + column))

/-- The size of the first axis; a tensor without axes has no rows. -/
def rows (tensor : Tensor) : Nat := tensor.shape.headD 0

/-- The tensor with the given elements, when there are as many as the shape needs. -/
def ofData (shape : Shape) (data : Array Double) : Except ShapeFault Tensor :=
  if fits : data.size = shape.words.elementCount then
    .ok { shape := shape.words, data, sizes_lt := shape.words_lt, data_size := fits }
  else .error (.dataCount data.size shape.words)

def tabulate (shape : Shape) (element : Nat → Double) : Tensor :=
  { shape := shape.words
    data := Array.ofFn (fun position : Fin shape.words.elementCount => element position)
    sizes_lt := shape.words_lt
    data_size := Array.size_ofFn }

def full (shape : Shape) (value : Double) : Tensor :=
  { shape := shape.words
    data := Array.replicate shape.words.elementCount value
    sizes_lt := shape.words_lt
    data_size := Array.size_replicate }

def ofList (values : List Double) : Tensor :=
  let stored := values.toArray
  tabulate [values.length] (fun position => stored[position]?.getD 0.0)

/-- Equality as doubles compare: zeros of both signs are equal, and a value that is
not a number is equal to nothing. -/
def sameNumbers (left right : Tensor) : Bool :=
  left.shape == right.shape && left.data == right.data

theorem shape_ofData {shape : Shape} {data : Array Double} {tensor : Tensor}
    (built : ofData shape data = .ok tensor) :
    tensor.shape = shape.words ∧ tensor.data = data := by
  unfold ofData at built
  by_cases fits : data.size = shape.words.elementCount
  · rw [dif_pos fits] at built
    cases built
    exact ⟨rfl, rfl⟩
  · rw [dif_neg fits] at built
    cases built

theorem ofData_self (tensor : Tensor) : ofData tensor.shape tensor.data = .ok tensor := by
  have words := Shape.words_of_lt tensor.sizes_lt
  unfold ofData
  rw [dif_pos (by rw [words]; exact tensor.data_size)]
  exact congrArg Except.ok (ext_of_fields words rfl)

theorem size_eq (tensor : Tensor) : tensor.size = tensor.shape.elementCount := tensor.data_size

@[simp] theorem shape_tabulate (shape : Shape) (element : Nat → Double) :
    (tabulate shape element).shape = shape.words := rfl

theorem get_tabulate (shape : Shape) (element : Nat → Double) (position : Nat)
    (inside : position < shape.words.elementCount) :
    (tabulate shape element).get position = element position := by
  unfold get tabulate
  simp only [Array.getElem?_ofFn, dif_pos inside, Option.getD_some]

end Tensor

end Featurize
