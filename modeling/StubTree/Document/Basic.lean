import StubTree.Document.Shape

/-! # Documents

A document is a decoded value as a tree: scalars, lists and mappings. A mapping keeps its
entries in the order in which their keys first came, and holds each key once.
-/

namespace StubTree

/-- A decoded value. -/
inductive Document where
  | null
  | bool (b : Bool)
  | int (i : Int)
  | float (x : Number.Binary64)
  | text (s : String)
  | date (d : Date)
  | list (items : List Document)
  | mapping (entries : List (Document × Document))
  deriving Inhabited

namespace Document

def shape : Document → Shape Document
  | null => .null
  | bool b => .bool b
  | int i => .int i
  | float x => .float x
  | text s => .text s
  | date d => .date d
  | list items => .list items
  | mapping entries => .mapping entries

mutual

/-- Equality of documents. The order of a mapping's entries does not matter. -/
def same : Document → Document → Bool
  | list xs, list ys => sameItems xs ys
  | mapping xs, mapping ys => xs.length == ys.length && allIn xs ys
  | d, e => d.shape.sameScalar e.shape

def sameItems : List Document → List Document → Bool
  | [], [] => true
  | x :: xs, y :: ys => same x y && sameItems xs ys
  | _, _ => false

def allIn : List (Document × Document) → List (Document × Document) → Bool
  | [], _ => true
  | (k, v) :: xs, ys => (ys.any fun (l, w) => same k l && same v w) && allIn xs ys

end

/-- Sets the value of a key: a key that is there keeps its place, a new one comes last. -/
def insert (key value : Document) : List (Document × Document) → List (Document × Document)
  | [] => [(key, value)]
  | (k, v) :: rest => if same k key then (k, value) :: rest else (k, v) :: insert key value rest

/-- The mapping that holds the given entries, later values replacing earlier ones. -/
def ofEntries (entries : List (Document × Document)) : List (Document × Document) :=
  entries.foldl (fun acc (k, v) => insert k v acc) []

mutual

/-- How deep collections are nested in a document. -/
def depth : Document → Nat
  | list items => depthOfItems items + 1
  | mapping entries => depthOfEntries entries + 1
  | _ => 0

def depthOfItems : List Document → Nat
  | [] => 0
  | d :: rest => max (depth d) (depthOfItems rest)

def depthOfEntries : List (Document × Document) → Nat
  | [] => 0
  | (_, v) :: rest => max (depth v) (depthOfEntries rest)

end

end Document

end StubTree
