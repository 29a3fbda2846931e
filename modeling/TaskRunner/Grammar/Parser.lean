import TaskRunner.Grammar.Construct

/-!
# Parsers

A parser is two functions. `run` says what is accepted: it takes a prefix of the text off and gives
the rest back. `watch` goes the same way and also keeps the record of `Furthest`. The record never
steers `run`, by construction, so what a script means can be studied without it, and it need only
be kept once a script has turned out to be unreadable.

Choice is ordered and repetition is greedy: neither is ever taken back.
-/
namespace TaskRunner.Grammar

/-- A place in a text: the characters from there on, and how many they are. They are counted when
somebody asks, and once for each place. -/
structure Place where
  text : List Char
  left : Thunk Nat

def Place.ofText (s : List Char) : Place := ⟨s, .mk fun _ => s.length⟩

structure Parser (α : Type) where
  run : List Char → Option (α × List Char)
  watch : Place → Furthest → Option (α × Place) × Furthest

namespace Parser

variable {α β : Type}

/-- A parser that leaves no record, such as a fixed word or a token looked at as a whole. -/
def silent (run : List Char → Option (α × List Char)) : Parser α where
  run := run
  watch here m := ((run here.text).map fun x => (x.1, Place.ofText x.2), m)

instance : Monad Parser where
  pure a := ⟨fun s => some (a, s), fun here m => (some (a, here), m)⟩
  bind p f :=
    { run := fun s =>
        match p.run s with
        | none => none
        | some (a, r) => (f a).run r
      watch := fun here m =>
        match p.watch here m with
        | (none, m) => (none, m)
        | (some (a, next), m) => (f a).watch next m }

def fail : Parser α := silent fun _ => none

/-- The first choice if it matches, otherwise the second. -/
def orElse (p q : Parser α) : Parser α where
  run s :=
    match p.run s with
    | some x => some x
    | none => q.run s
  watch here m :=
    match p.watch here m with
    | (some x, m) => (some x, m)
    | (none, m) => q.watch here m

/-- The first of several choices that matches. -/
def firstOf : List (Parser α) → Parser α
  | [] => fail
  | [p] => p
  | p :: ps => orElse p (firstOf ps)

def optional (p : Parser α) : Parser (Option α) where
  run s :=
    match p.run s with
    | some (a, r) => some (some a, r)
    | none => some (none, s)
  watch here m :=
    match p.watch here m with
    | (some (a, next), m) => (some (some a, next), m)
    | (none, m) => (some (none, here), m)

/-- Matches in a row, at most one more than `bound` has entries. -/
def upTo {γ : Type} (p : Parser α) : List γ → Parser (List α)
  | [] =>
    { run := fun s =>
        match p.run s with
        | none => some ([], s)
        | some (a, r) => some ([a], r)
      watch := fun here m =>
        match p.watch here m with
        | (none, m) => (some ([], here), m)
        | (some (a, next), m) => (some ([a], next), m) }
  | _ :: bound =>
    { run := fun s =>
        match p.run s with
        | none => some ([], s)
        | some (a, r) =>
          match (p.upTo bound).run r with
          | none => none
          | some (as, r') => some (a :: as, r')
      watch := fun here m =>
        match p.watch here m with
        | (none, m) => (some ([], here), m)
        | (some (a, next), m) =>
          match (p.upTo bound).watch next m with
          | (none, m) => (none, m)
          | (some (as, last), m) => (some (a :: as, last), m) }

/-- As many matches in a row as there are. The text itself is the bound: a match that takes something
off can happen no more often than the text has characters, and after the last match one more is
looked for. -/
def many (p : Parser α) : Parser (List α) where
  run s := (p.upTo s).run s
  watch here m := (p.upTo here.text).watch here m

/-- A parser that is put together only when it is used. -/
def delay (p : Unit → Parser α) : Parser α where
  run s := (p ()).run s
  watch here m := (p ()).watch here m

/-- A construct. When it is not there, that is put on record. -/
def named (c : Construct) (p : Parser α) : Parser α where
  run := p.run
  watch here m :=
    match p.watch here m with
    | (some x, after) => (some x, after)
    | (none, after) => (none, m.miss after here.left.get c)

/-- A fixed word. -/
def word (w : List Char) : Parser Unit :=
  silent fun s => if w.isPrefixOf s then some ((), s.drop w.length) else none

/-- The text from here on, none of which is taken off. -/
def here : Parser (List Char) where
  run s := some (s, s)
  watch place m := (some (place.text, place), m)

/-! ## What is accepted -/

@[simp] theorem run_silent (f : List Char → Option (α × List Char)) (s : List Char) :
    (silent f).run s = f s := rfl

@[simp] theorem run_pure (a : α) (s : List Char) : (pure a : Parser α).run s = some (a, s) := rfl

@[simp] theorem run_bind (p : Parser α) (f : α → Parser β) (s : List Char) :
    (p >>= f).run s = (p.run s).bind fun x => (f x.1).run x.2 := by
  show (match p.run s with | none => none | some (a, r) => (f a).run r) = _
  cases p.run s <;> rfl

@[simp] theorem run_fail (s : List Char) : (fail : Parser α).run s = none := rfl

@[simp] theorem run_orElse (p q : Parser α) (s : List Char) :
    (orElse p q).run s = (p.run s).or (q.run s) := by
  show (match p.run s with | some x => some x | none => q.run s) = _
  cases p.run s <;> rfl

@[simp] theorem run_named (c : Construct) (p : Parser α) (s : List Char) :
    (named c p).run s = p.run s := rfl

@[simp] theorem run_delay (p : Unit → Parser α) (s : List Char) :
    (delay p).run s = (p ()).run s := rfl

@[simp] theorem run_here (s : List Char) : here.run s = some (s, s) := rfl

end Parser

end TaskRunner.Grammar
