import UkAqOps.Lib.Scanning
import UkAqOps.Js.UriPath

/-!
# Object keys in requests and responses

`src/workers/shared/r2_sigv4.mjs`: a key is a part of the path of a request, a text in the XML of a
listing, and a text in the XML of a deletion and its answer. Each of these is written or read by hand.
-/

namespace UkAqOps.R2

open Scanning

/-! ## Patterns of the responses -/

/-- `/<name>/`. -/
def opening (name : String) : Pattern Char Unit := literal (tagChars '<' '>' name.toList)

/-- `/<\/name>/`. -/
def closing (name : String) : Pattern Char Unit := literal (tagChars '<' '>' ('/' :: name.toList))

/-- `/<name>([^<]+)<\/name>/`. -/
def element (name : String) : Pattern Char (List Char) :=
  elementAt '<' '>' name.toList ('/' :: name.toList)

/-- `/<name>([\s\S]*?)<\/name>/`. -/
def block (name : String) : Pattern Char (List Char) :=
  blockAt '<' '>' name.toList ('/' :: name.toList)

def apostrophe : Char := Char.ofNat 39

def decodeXmlEntities (value : List Char) : List Char :=
  let lower := replaceAll "&lt;".toList ['<'] value
  let greater := replaceAll "&gt;".toList ['>'] lower
  let quoted := replaceAll "&quot;".toList ['"'] greater
  let single := replaceAll "&#39;".toList [apostrophe] quoted
  replaceAll "&amp;".toList ['&'] single

/-- The text of the first element of a name. -/
def elementText (name : String) (xml : List Char) : Option (List Char) :=
  (find (element name) xml).map fun found ↦ found.2.1

/-! ## Listings -/

/-- An object of a listing; `Number` of the text of its size is taken. -/
structure ListedObject where
  key : String
  sizeText : Option String
  etag : Option String
  lastModified : Option String
deriving DecidableEq

/-- `.replace(/^"|"$/g, "")`. -/
def stripQuotes (cs : List Char) : List Char :=
  let rest := if cs.head? = some '"' then cs.tail else cs
  if rest.getLast? = some '"' then rest.dropLast else rest

/-- The object of a block, unless it has no key. -/
def listedObject (inner : List Char) : Option ListedObject :=
  (elementText "Key" inner).map fun key ↦
    { key := String.ofList (decodeXmlEntities key)
      sizeText := (elementText "Size" inner).map String.ofList
      etag := (elementText "ETag" inner).map fun text ↦
        String.ofList (stripQuotes (decodeXmlEntities text))
      lastModified := (elementText "LastModified" inner).map fun text ↦
        String.ofList (decodeXmlEntities text) }

structure ListPage where
  entries : List ListedObject
  commonPrefixes : List String
  nextToken : Option String

def parseListObjectsXml (xml : List Char) : ListPage :=
  { entries := (matchAll (block "Contents") xml).filterMap listedObject
    commonPrefixes := (matchAll (block "CommonPrefixes") xml).filterMap fun inner ↦
      (elementText "Prefix" inner).map fun text ↦ String.ofList (decodeXmlEntities text)
    nextToken := (elementText "NextContinuationToken" xml).map fun text ↦
      String.ofList (decodeXmlEntities text) }

structure ListRequest where
  keyPrefix : String
  continuationToken : Option String
  maxKeys : ℕ

/-- The answers to listings, `none` where a request fails. -/
abbrev ListService := ListRequest → Option (List Char)

/-- The loop of `r2ListAllObjects` from a token on, for so many turns at most. -/
def r2ListAllObjects (service : ListService) (keyPrefix : String) (maxKeys : ℕ) :
    ℕ → Option String → Option (List ListedObject)
  | 0, _ => none
  | turns + 1, token => do
    let xml ← service ⟨keyPrefix, token, maxKeys⟩
    let page := parseListObjectsXml xml
    match page.nextToken with
    | none => return page.entries
    | some next =>
      let later ← r2ListAllObjects service keyPrefix maxKeys turns (some next)
      return page.entries ++ later

/-! ## Deletions -/

/-- `.replace(/c/g, word)`. -/
def replaceChar (c : Char) (word : String) (cs : List Char) : List Char :=
  cs.flatMap fun d ↦ if d = c then word.toList else [d]

def escapeKey (key : List Char) : List Char :=
  let ampersands := replaceChar '&' "&amp;" key
  let lower := replaceChar '<' "&lt;" ampersands
  let greater := replaceChar '>' "&gt;" lower
  let quoted := replaceChar '"' "&quot;" greater
  replaceChar apostrophe "&apos;" quoted

def xmlDeclaration : String := "?xml version=\"1.0\" encoding=\"UTF-8\"?"

/-- A line of the body for each key. -/
def objectLine (key : String) : List Char :=
  "  <Object><Key>".toList ++ escapeKey key.toList ++ "</Key></Object>".toList

def buildDeleteObjectsXml (keys : List String) : List Char :=
  List.intercalate ['\n'] (tagChars '<' '>' xmlDeclaration.toList :: "<Delete>".toList ::
    (keys.map objectLine ++ ["</Delete>".toList]))

structure DeleteError where
  key : String
  code : String
  message : String
deriving DecidableEq

/-- What `r2DeleteObjects` returns; without keys there are no deleted keys either. -/
structure DeleteAnswer where
  deletedCount : ℕ
  deletedKeys : Option (List String)
  errors : List DeleteError
deriving DecidableEq

/-- `/<Deleted>[\s\S]*?<Key>([^<]+)<\/Key>[\s\S]*?<\/Deleted>/`. -/
def deletedPattern : Pattern Char ((Unit × List Char) × Unit) :=
  followedBy (followedBy (opening "Deleted") (element "Key")) (closing "Deleted")

/-- The pattern of an error: its key, its code and its message, none of them empty. -/
def errorPattern : Pattern Char ((((Unit × List Char) × List Char) × List Char) × Unit) :=
  followedBy (followedBy (followedBy (followedBy (opening "Error") (element "Key"))
    (element "Code")) (element "Message")) (closing "Error")

def deletedKeys (xml : List Char) : List String :=
  (matchAll deletedPattern xml).map fun found ↦ String.ofList (decodeXmlEntities found.1.2)

def deleteErrors (xml : List Char) : List DeleteError :=
  (matchAll errorPattern xml).map fun found ↦
    { key := String.ofList (decodeXmlEntities found.1.1.1.2)
      code := String.ofList (decodeXmlEntities found.1.1.2)
      message := String.ofList (decodeXmlEntities found.1.2) }

/-- `r2DeleteObjects`, for a service that answers a body or fails. -/
def r2DeleteObjects (service : List Char → Option (List Char)) (keys : List String) :
    Option DeleteAnswer :=
  if keys = [] then some ⟨0, none, []⟩
  else (service (buildDeleteObjectsXml keys)).map fun xml ↦
    { deletedCount := (deletedKeys xml).length
      deletedKeys := some (deletedKeys xml)
      errors := deleteErrors xml }

/-! ## Paths -/

/-- `objectKey.split("/").filter(Boolean)`. -/
def keyParts (objectKey : String) : List (List Char) :=
  (splitChars (· = '/') objectKey.toList).filter (· ≠ [])

def canonicalUri (bucket objectKey : String) : List Char :=
  joinPath (bucket.toList :: (keyParts objectKey).map encodeRfc3986)

/-- The path of the URL that `buildAwsSignedRequest` returns. -/
def requestPath (bucket objectKey : String) : List Char :=
  urlPathname (canonicalUri bucket objectKey)

end UkAqOps.R2
