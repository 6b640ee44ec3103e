import StubTree.CommandLine.Usage
import StubTree.Text.Pieces

/-! # The words of a command line

Words are options or operands. An option has a long name after two dashes and may have a letter
after one; letters stand together in a cluster. The value of an option is the rest of its
word, or else the next word, whatever that is. Two dashes alone end the options, and one dash
alone is an operand.
-/

namespace StubTree.CommandLine

/-- How an option is spelled, and what it stands for. -/
structure OptionForm (κ : Type) where
  key : κ
  long : String
  short : Option Char := none
  takesValue : Bool := true

structure Given (κ : Type) where
  key : κ
  value : String := ""
  deriving DecidableEq, Repr

/-- What a word is: an operand, or options of which the last may still want its value. -/
inductive Word (κ : Type) where
  | operand
  | options (given : List (Given κ)) (wanting : Option κ)

namespace Word

variable {κ : Type}

/-- The options of a cluster. An option with a value takes the rest of the cluster. -/
def ofCluster (forms : List (OptionForm κ)) :
    List Char → Except UsageFault (List (Given κ) × Option κ)
  | [] => .ok ([], none)
  | letter :: rest =>
    match forms.find? (·.short == some letter) with
    | none => .error (.unknownOption (String.ofList ['-', letter]))
    | some form =>
      if form.takesValue then
        if rest.isEmpty then .ok ([], some form.key)
        else .ok ([⟨form.key, String.ofList rest⟩], none)
      else do
        let (given, wanting) ← ofCluster forms rest
        return (⟨form.key, ""⟩ :: given, wanting)

/-- The option of a long name, with the value after the first equals sign, if there is one. -/
def ofLong (forms : List (OptionForm κ)) (body : List Char) :
    Except UsageFault (List (Given κ) × Option κ) :=
  let name := String.ofList (body.takeWhile (· != '='))
  match forms.find? (·.long == name), body.dropWhile (· != '=') with
  | none, _ => .error (.unknownOption ("--" ++ name))
  | some form, [] =>
    .ok (if form.takesValue then ([], some form.key) else ([⟨form.key, ""⟩], none))
  | some form, _ :: value =>
    if form.takesValue then .ok ([⟨form.key, String.ofList value⟩], none)
    else .error (.valueNotTaken ("--" ++ name))

/-- What a word is. -/
def of (forms : List (OptionForm κ)) (word : String) : Except UsageFault (Word κ) :=
  match word.toList with
  | '-' :: '-' :: body => do
    let (given, wanting) ← ofLong forms body
    return options given wanting
  | '-' :: letter :: rest => do
    let (given, wanting) ← ofCluster forms (letter :: rest)
    return options given wanting
  | _ => .ok operand

end Word

/-- Options and operands taken apart, each in the order in which they came. -/
structure Sorted (κ : Type) where
  given : List (Given κ) := []
  operands : List String := []
  deriving DecidableEq, Repr

namespace Sorted

variable {κ : Type}

/-- Takes words apart. Where options and operands are not `mixed`, the first operand ends the
options. -/
def ofWords (forms : List (OptionForm κ)) (mixed : Bool) :
    List String → Except UsageFault (Sorted κ)
  | [] => .ok {}
  | "--" :: rest => .ok ⟨[], rest⟩
  | word :: rest => do
    match ← Word.of forms word with
    | .operand =>
      if mixed then
        let later ← ofWords forms mixed rest
        return { later with operands := word :: later.operands }
      else return ⟨[], word :: rest⟩
    | .options given none =>
      let later ← ofWords forms mixed rest
      return { later with given := given ++ later.given }
    -- The next word is the value, even where it looks like an option.
    | .options given (some key) =>
      match rest with
      | [] => .error (.valueMissing word)
      | value :: rest =>
        let later ← ofWords forms mixed rest
        return { later with given := given ++ ⟨key, value⟩ :: later.given }

variable [DecidableEq κ]

def values (s : Sorted κ) (key : κ) : List String :=
  (s.given.filter (·.key = key)).map (·.value)

def last? (s : Sorted κ) (key : κ) : Option String := (s.values key).getLast?

def has (s : Sorted κ) (key : κ) : Bool := s.given.any (·.key = key)

/-- The options that were given, in the order in which they first came. -/
def keys (s : Sorted κ) : List κ := (s.given.map (·.key)).eraseDups

end Sorted

end StubTree.CommandLine
