import GraphqlCypher.Mutation.Arguments
import GraphqlCypher.Request.Failure

/-! Configuration of a binding and of the resolvers that lead to it. -/
namespace GraphqlCypher

/-! ### Ids -/

/-- The kinds of ids that can be given to new nodes. -/
inductive IdStrategy where
  | cuid
  | uuid
deriving DecidableEq, Repr

namespace IdStrategy

def text : IdStrategy → String
  | .cuid => "cuid"
  | .uuid => "uuid"

/-- The shape of the ids. -/
def format : IdStrategy → String
  | .cuid => "cuid"
  | .uuid => "uuid-v4"

def ofText? : String → Option IdStrategy
  | "cuid" => some .cuid
  | "uuid" => some .uuid
  | _ => none

/-- So many digits of a number in a base, the last ones if there are more. -/
def lastDigits (base count n : Nat) : List Char :=
  let digits := Nat.toDigits base (n % Nat.pow base count)
  List.replicate (count - digits.length) '0' ++ digits

/-- Digits up to the letter `z`. -/
def alphanumeric (count n : Nat) : List Char :=
  let digit (k : Nat) : Char := if k < 10 then Char.ofNat (48 + k) else Char.ofNat (87 + k)
  (List.range count).reverse.map fun i => digit (n / Nat.pow 36 i % 36)

/-- A number of 128 bits that differs for every seed and every count. -/
def scatter (seed count : Nat) : Nat :=
  (seed * 0x9E3779B97F4A7C15F39CC0605CEDC835 + count * 0xDA942042E4DD58B5A0761D6478BD642F + 1) %
    Nat.pow 2 128

/-- The letter `c`, the seed as a time stamp, the count, and scattered digits. -/
def cuidText (seed count : Nat) : String :=
  String.ofList (['c'] ++ alphanumeric 8 seed ++ alphanumeric 4 count ++
    alphanumeric 12 (scatter seed count))

/-- 32 hexadecimal digits in five parts; one names the version, one the variant. -/
def uuidText (seed count : Nat) : String :=
  let ds := lastDigits 16 32 (scatter seed count)
  let variant := Nat.toDigits 16 (8 + scatter seed count % 4)
  String.ofList (ds.take 8 ++ ['-'] ++ (ds.drop 8).take 4 ++ ['-', '4'] ++ (ds.drop 13).take 3 ++
    ['-'] ++ variant ++ (ds.drop 17).take 3 ++ ['-'] ++ ds.drop 20)

/-- The ids of a strategy, from a seed. -/
def generator (strategy : IdStrategy) (seed : Nat) : IdGenerator where
  next count := .ok (match strategy with
    | .cuid => cuidText seed count
    | .uuid => uuidText seed count)

end IdStrategy

/-- Whether new nodes get ids, and which. -/
inductive IndexConfig where
  | disabled
  | use (strategy : IdStrategy)
deriving DecidableEq, Repr, Inhabited

namespace IndexConfig

def strategy? : IndexConfig → Option IdStrategy
  | .disabled => none
  | .use s => some s

/-- The name of a strategy, as a word or as the one key of an object without value. -/
def strategyOf? : Json → Option IdStrategy
  | .string s => IdStrategy.ofText? s
  | .object [(s, .null)] => IdStrategy.ofText? s
  | _ => none

/-- `false`, or an object that names a strategy once. -/
def decode : Json → Except Json.DecodeError IndexConfig
  | .bool false => .ok .disabled
  | .bool true => .error .unnamedGenerator
  | .object entries =>
    match entries.filter (·.1 == "use") with
    | [(_, v)] =>
      match strategyOf? v with
      | some s => .ok (.use s)
      | none => .error .noGenerator
    | _ => .error .noGenerator
  | _ => .error .noGenerator

def toJson : IndexConfig → Json
  | .disabled => .bool false
  | .use s => .object [("use", .string s.text)]

end IndexConfig

/-! ### Bindings and resolvers -/

/-- The key under which a binding is found unless another is given. -/
def defaultBindingKey : String := "neo4j"

structure BindingConfig where
  /-- Log every statement and every answer. -/
  log : Bool := false
  index : IndexConfig := .disabled
  bindingKey : String := defaultBindingKey
deriving DecidableEq, Repr

namespace BindingConfig

def shape : Json.RecordShape BindingConfig :=
  { name := "BindingConfig"
    defaults := {}
    fields := [
      ("log", .flag fun c b => { c with log := b }),
      ("indexConfig", .any fun c v => (IndexConfig.decode v).map fun i => { c with index := i }),
      ("bindingKey", .text fun c s => { c with bindingKey := s })] }

/-- Reads a configuration. -/
def ofText (text : String) : Except RequestFailure BindingConfig :=
  match shape.fromText text with
  | .ok c => .ok c
  | .error e => .error (.configuration e)

def toJson (c : BindingConfig) : Json :=
  .object [("log", .bool c.log), ("indexConfig", c.index.toJson),
    ("bindingKey", .string c.bindingKey)]

end BindingConfig

structure ResolverOptions where
  query : Bool := true
  mutation : Bool := true
  bindingKey : String := defaultBindingKey
deriving DecidableEq, Repr

namespace ResolverOptions

def shape : Json.RecordShape ResolverOptions :=
  { name := "ResolverOptions"
    defaults := {}
    fields := [
      ("query", .flag fun o b => { o with query := b }),
      ("mutation", .flag fun o b => { o with mutation := b }),
      ("bindingKey", .text fun o s => { o with bindingKey := s })] }

def toJson (o : ResolverOptions) : Json :=
  .object [("query", .bool o.query), ("mutation", .bool o.mutation),
    ("bindingKey", .string o.bindingKey)]

end ResolverOptions

end GraphqlCypher
