import VFromC.Json.Document
/-!
Decoding of JSON trees into records.

A record may be written as an object or as the list of its fields in order. Fields that are not
there keep their defaults, unknown members are skipped, and the first problem in the order of the
text is the one that counts. `levels` is the number of brackets and braces that may still be opened;
values that are skipped do not count.
-/
namespace VFromC.Json

variable {α σ : Type}

mutual

/-- The first flaw that a reader meets who only skips the value. -/
def skipFlaw? : Doc → Option Flaw
  | .list items ending =>
      skipItems? items <|>
        match ending with
        | .closed => none
        | .afterItem flaw | .afterComma flaw => some flaw
  | .record members ending => skipMembers? members <|> ending.map Break.skipped
  | .broken b => some b.skipped
  | .null | .bool _ | .number _ | .text _ => none

def skipItems? : List Doc → Option Flaw
  | [] => none
  | doc :: rest => skipFlaw? doc <|> skipItems? rest

def skipMembers? : List (Option String × Doc) → Option Flaw
  | [] => none
  | (_, doc) :: rest => skipFlaw? doc <|> skipMembers? rest

end

mutual

/-- The first flaw that a reader meets who reads the value whatever its type is. -/
def readFlaw? (levels : Nat) : Doc → Option Flaw
  | .number .tooLarge => some .malformed
  | .text none => some .malformed
  | .list items ending =>
      if levels = 0 then some .malformed
      else
        readItems? (levels - 1) items <|>
          match ending with
          | .closed => none
          | .afterItem flaw | .afterComma flaw => some flaw
  | .record members ending =>
      if levels = 0 then some .malformed
      else readMembers? (levels - 1) members <|> ending.map Break.used
  | .broken b => some b.used
  | .null | .bool _ | .number _ | .text (some _) => none

def readItems? (levels : Nat) : List Doc → Option Flaw
  | [] => none
  | doc :: rest => readFlaw? levels doc <|> readItems? levels rest

def readMembers? (levels : Nat) : List (Option String × Doc) → Option Flaw
  | [] => none
  | (none, _) :: _ => some .malformed
  | (some _, doc) :: rest => readFlaw? levels doc <|> readMembers? levels rest

end

/-- The flaw of a value that does not have the type asked for. Lists and objects are not looked
into. -/
def wrongType : Doc → Flaw
  | .number .tooLarge => .malformed
  | .text none => .malformed
  | .broken b => b.used
  | _ => .mistyped

/-- The flaw of a value where nothing may be opened any more. -/
def tooDeep : Doc → Flaw
  | .list _ _ | .record _ _ => .malformed
  | doc => wrongType doc

def readText : Doc → Except Flaw String
  | .text (some s) => .ok s
  | doc => .error (wrongType doc)

def readBool : Doc → Except Flaw Bool
  | .bool b => .ok b
  | doc => .error (wrongType doc)

def readNat : Doc → Except Flaw Nat
  | .number (.natural n) => .ok n
  | doc => .error (wrongType doc)

def readOptional (read : Doc → Except Flaw α) : Doc → Except Flaw (Option α)
  | .null => .ok none
  | doc => (read doc).map some

def readList (levels : Nat) (read : Doc → Except Flaw α) : Doc → Except Flaw (List α)
  | .list items ending => do
      if levels = 0 then .error .malformed
      else
        let values ← items.mapM read
        match ending with
        | .closed => .ok values
        | .afterItem flaw | .afterComma flaw => .error flaw
  | doc => .error (wrongType doc)

/-- A field of the record type `σ`: its key, and how its value is stored. -/
structure FieldReader (σ : Type) where
  key : String
  store : Doc → σ → Except Flaw σ

def FieldReader.of (key : String) (read : Doc → Except Flaw α) (set : σ → α → σ) : FieldReader σ :=
  ⟨key, fun doc r => (read doc).map (set r)⟩

/-- Stores the members in order; `seen` are the keys that were there before. -/
def storeMembers (fields : List (FieldReader σ)) (seen : List String) (r : σ) :
    List (Option String × Doc) → Except Flaw σ
  | [] => .ok r
  | (none, _) :: _ => .error .malformed
  | (some key, doc) :: rest =>
      match fields.find? (·.key == key) with
      | some field =>
          if seen.contains key then .error .mistyped
          else
            match field.store doc r with
            | .ok r => storeMembers fields (key :: seen) r rest
            | .error flaw => .error flaw
      | none =>
          match skipFlaw? doc with
          | some flaw => .error flaw
          | none => storeMembers fields seen r rest

/-- Stores the items of a list as the fields in order. A list with more items than fields is
malformed, and so is one that goes on with a comma after the last field. -/
def storeItems (r : σ) (ending : Ending) : List (FieldReader σ) → List Doc → Except Flaw σ
  | [], [] =>
      match ending with
      | .closed => .ok r
      | .afterItem flaw => .error flaw
      | .afterComma _ => .error .malformed
  | [], _ :: _ => .error .malformed
  | _ :: _, [] =>
      match ending with
      | .closed => .ok r
      | .afterItem flaw | .afterComma flaw => .error flaw
  | field :: fields, doc :: rest =>
      match field.store doc r with
      | .ok r => storeItems r ending fields rest
      | .error flaw => .error flaw

/-- A record with the given fields, starting from its defaults. -/
def storeRecord (fields : List (FieldReader σ)) (default : σ) : Doc → Except Flaw σ
  | .record members ending =>
      match storeMembers fields [] default members with
      | .ok r =>
          match ending with
          | none => .ok r
          | some b => .error b.used
      | .error flaw => .error flaw
  | .list items ending => storeItems default ending fields items
  | doc => .error (wrongType doc)

/-- A record of scalar fields, one level deep. -/
def readRecord (levels : Nat) (fields : Nat → List (FieldReader σ)) (default : σ) (doc : Doc) :
    Except Flaw σ :=
  match levels with
  | 0 => .error (tooDeep doc)
  | l + 1 => storeRecord (fields l) default doc

end VFromC.Json
