import Onecli.Graphql.Scanner
import Onecli.Gateway.Text
import Onecli.Json

/-!
# The gateway's GraphQL classifier

`policy-engine/src/graphql.rs`: the document scanner over `char`s, the key count over the
bytes of the body, and the classification of a request body. `serde_json::from_slice` is a
parameter. Every doubtful body is a mutation.
-/

namespace Onecli.Gateway

open Graphql

/-- The scanner's alphabet over `Vec<char>`. -/
def chars : Alphabet Char where
  unit := id
  isNameStart ch := ch == '_' || ch.isAlpha
  isNamePart ch := ch == '_' || ch.isAlphanum

/-- The byte of an ASCII character. -/
def byteUnit (c : Char) : UInt8 := c.toNat.toUInt8

/-- `classify_graphql_document`. -/
def classifyGraphqlDocument (document : Str) : OpKind := classifyDocument chars document

/-- `classify_graphql_body`: a query only for a provably pure query document. -/
def classifyGraphqlBody (fromSlice : List UInt8 → Option (Json Str)) (body : Option (List UInt8)) :
    OpKind :=
  match body with
  | none => .mutation
  | some bytes =>
    if bytes.isEmpty then .mutation
    else
      match fromSlice bytes with
      | none => .mutation
      | some parsed =>
        match (parsed.get "query".toList).bind Json.asStr with
        | none => .mutation
        | some document =>
          -- an upstream parser may keep the first of two keys where serde keeps the last
          if countTopLevelLiteralQueryKeys byteUnit bytes ≠ 1 then .mutation
          else classifyGraphqlDocument document

end Onecli.Gateway
