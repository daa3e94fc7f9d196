import FieldRules.Run.Datum
import FieldRules.Sample.Validators

/-!
# Sample structs

Structs with annotations of all kinds, their default values and the program that is derived from
them: `Sample.program` with the validators of `FieldRules.Sample.Validators`.
-/

namespace FieldRules.Sample

/-- A field of a sample struct. -/
structure FieldSpec where
  /-- The field, if its type can be read. -/
  decl : Option FieldDecl
  default : String × Datum

/-- The attribute with the given lexemes between its parentheses. -/
def attributeOf (inner : List Lexeme) : Attribute :=
  ⟨false, [.ofName "validate"], .nowhere, .list inner .nowhere⟩

def tagged (tags : String) : Attribute :=
  attributeOf [.literal (Text.quote tags) (some tags) .nowhere]

/-- The attribute of a field that is not validated. -/
def skipped : Attribute := attributeOf [.ident (.ofName "skip") .nowhere]

/-- The attributes of tags, none if they are empty. -/
def attributesOf (tags : String) : List Attribute :=
  if tags = "" then [] else [tagged tags]

/-- The type that a text writes. -/
def typeOf? (text : String) : Option Ty := Reader.ofText? (Reader.ty · true) text

def fieldWith (name : Option Ident) (attributes : List Attribute) (ty : String) (default : Datum) :
    FieldSpec :=
  ⟨(typeOf? ty).map fun t => ⟨attributes, name, t, .nowhere⟩,
    ((name.map (·.name)).getD "", default)⟩

def field (name tags ty : String) (default : Datum) : FieldSpec :=
  fieldWith (some (.ofName name)) (attributesOf tags) ty default

/-- A field of a tuple struct, with tags. -/
def slot (tags ty : String) : FieldSpec := fieldWith none (attributesOf tags) ty .null

/-- A struct with tags of its own, generic parameters and the types they stand for. -/
def generic (form : StructForm) (name tags : String) (params : List (String × String × String))
    (fields : List FieldSpec) : Option Declaration := do
  let decls ← fields.mapM (·.decl)
  let bounds ← params.mapM fun p => typeOf? p.2.1
  let arguments ← params.mapM fun p => typeOf? p.2.2
  let names := params.map (·.1)
  let generics : Generics :=
    ⟨(names.zip bounds).map fun p => .type [] (.ofName p.1) p.2.tokens, false, []⟩
  return ⟨⟨attributesOf tags, .ofName name, .nowhere, generics, .struct form decls⟩,
    fields.map (·.default), names.zip arguments⟩

def named (name tags : String) (fields : List FieldSpec) : Option Declaration :=
  generic .named name tags [] fields

/-- A struct with fields in order. -/
def tuple (name tags : String) (fields : List FieldSpec) : Option Declaration :=
  generic .tuple name tags [] fields

/-! ## Data -/

instance : Coe String Datum := ⟨Datum.text⟩

def nothing : Datum := .list []

def listOf (items : List Datum) : Datum := .list items

def entry (k v : Datum) : Datum := .list [k, v]

def dogNamed (name : String) : Datum := .object [("name", name)]

/-- An order line of the given quantity. -/
def lineOf (quantity : String) : Datum := .object [("quantity", quantity)]

/-! ## Structs -/

/-- An animal with a name. -/
def dog : Option Declaration := named "Dog" "" [
  field "name" "min_len=1,max_len=64" "String" "Buddy"]

/-- A wrapper of a map. -/
def dogsMap : Option Declaration := tuple "DogsMap" "func=.no_reserved" [
  slot "min_items=1" "BTreeMap<String, Dog>"]

/-- A struct with fields of most types. -/
def user : Option Declaration := named "User" "" [
  field "name" "min_len=3,max_len=64" "String" "Alice",
  field "last_name" "nullable,min_len=1,max_len=5" "Option<String>" .null,
  field "age" "min=18,max=105" "u32" "30",
  field "children_count" "not_null,min=0,max=15" "Option<i32>" (.given "2"),
  field "float" "min=-4.22,max=42.55" "f64" "1.5",
  field "dog" "" "Dog" (dogNamed "Buddy"),
  field "dog_pointer" "nullable" "Option<Box<Dog>>" .null,
  field "dog_optional" "nullable,func=.not_rex" "Option<Dog>" .null,
  field "urls" "min_items=1,item=[max_len=256]" "Vec<String>" (listOf ["https://example.com"]),
  field "dogs" "min_items=1,item=[nullable]" "Vec<Option<Dog>>"
    (listOf [.given (dogNamed "Max"), .null]),
  field "test" "nullable,min_items=1,item=[min=4]" "Option<Vec<i32>>" .null,
  field "some" "func=positive_area" "Box<dyn Shape>" "2.0",
  field "dict" "min_items=2,key=[max_len=64],value=[min=-35,max=34]" "BTreeMap<String, i32>"
    (listOf [entry "a" "1", entry "b" "-2"]),
  field "dict_dogs" "value=[func=.not_rex;short_name]" "BTreeMap<String, Dog>"
    (listOf [entry "first" (dogNamed "Luna")]),
  field "alias" "" "DogsMap" (listOf [entry "pet" (dogNamed "Bo")]),
  field "map_of_map" "value=[min_items=1,value=[min_len=3]]"
    "BTreeMap<String, BTreeMap<String, String>>" nothing,
  field "byte_field" "" "u8" "7",
  field "byte_array" "" "Vec<u8>" (listOf ["1", "2", "3"])]

/-- Integers of every width. -/
def ints : Option Declaration := named "Ints" "" [
  field "a" "min=-5,max=1000" "i8" "0",
  field "b" "min=-300,max=300" "i16" "0",
  field "c" "min=-1,max=1e3" "i32" "0",
  field "d" "min=-9223372036854775807,max=9223372036854775806" "i64" "0",
  field "e" ("min=-170141183460469231731687303715884105728," ++
    "max=170141183460469231731687303715884105726") "i128" "0",
  field "f" "max=0" "isize" "0",
  field "g" "min=-1,max=65534" "u16" "0",
  field "h" "min=+7" "u32" "7",
  field "i" "max=18446744073709551614" "u64" "0",
  field "j" "min=1,max=10" "u128" "10",
  field "k" "min=0" "u128" "0",
  field "l" "min=2,max=2" "usize" "2"]

/-- Floating-point numbers of both widths. -/
def floats : Option Declaration := named "Floats" "" [
  field "a" "min=4.22,max=42.55" "f32" "10.0",
  field "b" "min=-0.1,max=0.3" "f64" "0.0",
  field "c" "min=0" "f64" "0.0",
  field "d" "max=1e22" "f64" "0.0",
  field "e" "min=1e-7,max=1e-7" "f64" "1e-7",
  field "f" "item=[min=0.0,max=1.0]" "[f64; 3]" (listOf ["0.2", "0.3", "0.5"])]

/-- Texts of all kinds. -/
def texts : Option Declaration := named "Texts" "" [
  field "a" "min_len=3,max_len=3" "String" "abc",
  field "b" "max_len=2" "Cow<'static, str>" "ab",
  field "c" "min_len=1" "&'static str" "x",
  field "d" "min_len=0,max_len=0" "String" "",
  field "e" "min_len=2,func=checks::not_blank;checks::not_private;checks::scripted" "String" "ok",
  field "f" "item=[func=checks::scripted]" "Vec<String>" nothing,
  field "g" "key=[func=checks::scripted],value=[func=checks::scripted]" "BTreeMap<String, String>"
    nothing,
  fieldWith (some ⟨true, "type"⟩) [tagged "min_len=1"] "String" "t"]

/-- Optional values. -/
def options : Option Declaration := named "Options" "" [
  field "a" "" "Option<u32>" (.given "1"),
  field "b" "nullable,min=5" "Option<u16>" .null,
  field "c" "nullable" "Option<Option<i32>>" .null,
  field "d" "min=1,max=3" "Option<Option<i32>>" (.given (.given "2")),
  field "e" "nullable,func=checks::truth" "Option<bool>" .null,
  field "f" "item=[min_len=1]" "Option<Vec<String>>" (.given nothing),
  field "g" "item=[nullable,min=1]" "Vec<Option<i32>>" nothing,
  field "h" "value=[nullable,item=[min=0]]" "BTreeMap<String, Option<Vec<i32>>>" nothing,
  field "i" "nullable,func=.not_rex" "Option<Box<Dog>>" .null]

/-- Collections of collections. -/
def collections : Option Declaration := named "Collections" "" [
  field "a" "min_items=1,max_items=3,item=[min_len=2]" "Vec<String>" (listOf ["io"]),
  field "b" "max_items=3" "VecDeque<u32>" nothing,
  field "c" "item=[min=1]" "BTreeSet<u64>" nothing,
  field "d" "min_items=1,item=[min=0]" "&'static [i64]" (listOf ["3", "5"]),
  field "e" "max_items=2,value=[min_items=1,item=[min_len=1]]" "BTreeMap<u32, Vec<String>>" nothing,
  field "f" "item=[min_items=1,item=[min_items=2,item=[max=9]]]" "Vec<Vec<Vec<i32>>>" nothing,
  field "g" "min_items=0,max_items=0" "Vec<bool>" nothing,
  field "h" "key=[min=10],value=[key=[max_len=1],value=[func=checks::even]]"
    "BTreeMap<i16, BTreeMap<String, i32>>" nothing,
  field "i" "item=[func=checks::ascii]" "Vec<u8>" nothing]

/-- Trait objects behind all kinds of pointers. -/
def canvas : Option Declaration := named "Canvas" "" [
  field "boxed" "func=positive_area" "Box<dyn Shape>" "1.0",
  field "borrowed" "func=positive_area" "&'static dyn Shape" "1.0",
  field "shared" "func=positive_area" "Arc<dyn Shape>" "1.0",
  field "layers" "item=[func=positive_area]" "Vec<Box<dyn Shape>>" nothing]

/-- A line of an order. -/
def line : Option Declaration := named "Line" "" [
  field "quantity" "min=1" "u32" "1"]

/-- A struct with validators of its own. -/
def order : Option Declaration := named "Order" "func=.check_totals;audit" [
  field "reference" "min_len=1,func=checks::not_blank" "String" "A-1",
  field "lines" "item=[func=.check]" "Vec<Line>" (listOf [lineOf "2", lineOf "3"]),
  field "total" "" "u32" "5"]

/-- Structs inside structs. -/
def account : Option Declaration := named "Account" "" [
  field "owner" "" "Holder" (.object [("dog", dogNamed "Rex"), ("orders", nothing)]),
  field "holders" "" "BTreeMap<String, Holder>" nothing,
  fieldWith (some (.ofName "notes")) [skipped] "String" "",
  field "pair" "" "(u8, u8)" .null,
  field "marker" "" "PhantomData<u8>" .null]

/-- A struct with a struct and a list of structs. -/
def holder : Option Declaration := named "Holder" "" [
  field "dog" "" "Dog" (dogNamed "Buddy"),
  field "orders" "" "Vec<Order>" nothing]

/-- A wrapper of a number. -/
def level : Option Declaration := tuple "Level" "min=1,max=10" [slot "" "u16"]

/-- A struct with two fields in order. -/
def point : Option Declaration := tuple "Point" "" [slot "min=0" "i32", slot "max=9" "i32"]

/-- A wrapper of a list. -/
def tags : Option Declaration := tuple "Tags" "func=.no_duplicates" [
  slot "min_items=1,item=[min_len=2]" "Vec<String>"]

/-- A struct without fields. -/
def marker : Option Declaration := generic .unit "Marker" "" [] []

/-- A list of something, and one in a wrapper; here of dogs. -/
def page : Option Declaration := generic .named "Page" "" [("T", "Validate", "Dog")] [
  field "items" "min_items=1,max_items=3" "Vec<T>" nothing,
  field "wrapped" "" "Wrapper<T>" .null]

/-- A wrapper of an optional something; here of a dog. -/
def wrapper : Option Declaration := generic .tuple "Wrapper" "" [("T", "Validate", "Dog")] [
  slot "nullable" "Option<T>"]

/-- The sample structs. -/
def catalog : Catalog :=
  [dog, dogsMap, user, ints, floats, texts, options, collections, canvas, line, order, account,
    holder, level, point, tags, marker, page, wrapper].filterMap id

/-- The program that is derived from the sample structs. -/
def program : Program := catalog.program validators

/-- The validation of a value of the sample struct with the given name, if it can be read. -/
def validate? (name : String) (d : Datum) : Option Outcome :=
  (catalog.read name d).map program.validate

end FieldRules.Sample
