import MapChain.Path.Basic
import MapChain.Text.Coding
import MapChain.Text.Search

/-!
Reference comments: the comment at the end of a text that names the map of that text, by a URL.
Scripts have it as a line comment, style sheets as a block comment. Main statement: a URL that
carries the data of a map is written as it is.
-/

set_option autoImplicit false

namespace MapChain.Reference

def dataHead : String := "data:application/json;charset=utf-8;base64,"

/-- Punctuation that has a meaning in URLs and is kept. -/
def reserved : List Char := ";,/?:@&=+$!*'()#".toList

def isUnreserved (char : Char) : Bool :=
  char.isAlphanum || char == '-' || char == '_' || char == '.' || char == '~'

def encodeUrlChar (char : Char) : List Char :=
  if reserved.contains char || isUnreserved char then [char] else Percent.encodeChar char

def encodeUrl (url : String) : String :=
  if dataHead.toList.isPrefixOf url.toList then url
  else String.ofList (url.toList.flatMap encodeUrlChar)

theorem encode_url_of_data (url : String) (data : dataHead.toList.isPrefixOf url.toList = true) :
    encodeUrl url = url := by
  simp [encodeUrl, data]

/-- A URL whose decoded bytes are no text is left as it is. -/
def decodeUrl (url : String) : String :=
  match Utf8.decode (Percent.decodeBytes (Utf8.encode url.toList)) with
  | some text => String.ofList text
  | none => url

def isDataUrl (url : String) : Bool := "data:".toList.isPrefixOf url.toList

def marker : List Char := "sourceMappingURL=".toList

/-- The URL of the last reference, still coded. It ends at the first blank, and the end of a block
comment right before that blank is not part of it. -/
def findUrl? (content : String) : Option String :=
  match Search.afterLast? marker content.toList with
  | none => none
  | some rest =>
      let word := rest.takeWhile (!Blank.isBlank ·)
      let url :=
        match Search.after? ['/', '*'] word.reverse with
        | some shorter => shorter.reverse
        | none => word
      if url = [] then none else some (String.ofList url)

def isStyleSheet (path : Path) : Bool :=
  path.extension?.any fun extension => extension.map Char.toLower = ['c', 's', 's']

/-- A text that begins with a line comment that is a reference and holds nothing but blanks after
that line. -/
def isLineReference : List Char → Bool
  | '/' :: '/' :: mark :: rest =>
      (mark == '#' || mark == '@') &&
        (Search.after? marker (Blank.skip rest)).any fun url =>
          url.takeWhile (· ≠ '\n') ≠ [] && Blank.isAllBlank (url.dropWhile (· ≠ '\n'))
  | _ => false

def blockInside? : List Char → Option (List Char)
  | '/' :: '*' :: '#' :: rest => some rest
  | '/' :: '*' :: rest => some rest
  | _ => none

/-- The end of a reference in a block comment, read backwards: the closing, a blank, and a URL
without quotes. -/
def isBlockTail : List Char → Bool
  | '/' :: '*' :: blank :: url =>
      Blank.isBlank blank && url ≠ [] && url.all fun char => char ≠ '\'' && char ≠ '"'
  | _ => false

/-- A text that begins with a block comment that is a reference and holds nothing but blanks after
the last closing. -/
def isBlockReference (text : List Char) : Bool :=
  match blockInside? text with
  | none => false
  | some inside =>
      (Search.after? marker (Blank.skip inside)).any fun url =>
        isBlockTail (url.reverse.dropWhile Blank.isBlank)

def beforeFirst? (wanted : List Char → Bool) : List Char → Option (List Char)
  | [] => if wanted [] then some [] else none
  | char :: text =>
      if wanted (char :: text) then some []
      else (beforeFirst? wanted text).map (char :: ·)

def dropLineFeeds (text : List Char) : List Char :=
  (text.reverse.dropWhile (· = '\n')).reverse

/-- The text before its reference, with the line feeds in front of the reference cut off too. -/
def cut? (wanted : List Char → Bool) (text : List Char) : Option (List Char) :=
  (beforeFirst? wanted text).map dropLineFeeds

def strip (target : Path) (content : String) : String :=
  let text := content.toList
  let cut :=
    if isStyleSheet target then cut? isBlockReference text
    else (cut? isLineReference text).or (cut? isBlockReference text)
  match cut with
  | some shorter => String.ofList shorter
  | none => content

def comment (target : Path) (url : String) : String :=
  if isStyleSheet target then "\n/*# sourceMappingURL=" ++ encodeUrl url ++ " */\n"
  else "\n//# sourceMappingURL=" ++ encodeUrl url ++ "\n"

end MapChain.Reference
