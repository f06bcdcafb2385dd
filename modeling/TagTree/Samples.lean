import TagTree.Script

/-!
# Samples

Three small documents as scripts: attributes and texts; deeper nesting and a block
whose value becomes text; repeated parts and a reserved word as a tag.
-/

namespace TagTree

namespace Sample

def text (s : String) : Expr := .atom (.text s)

def int (n : Int) : Expr := .atom (.int n)

def mapping (entries : List (String × Expr)) : Expr :=
  .dict (entries.map fun entry => (text entry.1, entry.2))

def texts (entries : List (String × String)) : Expr :=
  mapping (entries.map fun entry => (entry.1, text entry.2))

def block (steps : List Step) : Expr := .block steps (.atom .none)

def value (x : Expr) : Expr := .block [] x

def tag (name : String) (args : List Expr) : Step := .run (.call none name args []) none

def documentBlock : Expr :=
  block [tag "document"
    [texts [("type", "xml"), ("use", "example")],
      block [
        tag "description" [text "This is an example of using the builder."],
        tag "next_meeting"
          [texts [("date", "2022-12-28 07:47:15 -0300")],
            block [
              tag "agenda" [text "Nothing of importance will be decided."],
              tag "clearance" [texts [("level", "classified")]]]]]]]

def pageBlock : Expr :=
  block [tag "html"
    [texts [("lang", "en-US")],
      block [
        tag "head"
          [block [
            tag "title" [text "Just a moment..."],
            tag "link"
              [texts [("href", "/cdn-cgi/styles/challenges.css"), ("rel", "stylesheet")]]]],
        tag "body"
          [texts [("class", "no-js")],
            block [
              tag "div" [texts [("class", "main-wrapper"), ("role", "main")]],
              tag "div"
                [texts [("class", "main-content")],
                  block [
                    tag "h1"
                      [texts [("class", "zone-name-title h1")],
                        block [tag "img"
                          [texts [("class", "heading-favicon"), ("src", "/favicon.ico")]]]],
                    tag "h2"
                      [texts [("class", "h2"), ("id", "challenge-running")],
                        value (text "Checking if the site connection is secure")]]]]]]]]

def amounts (month expenses revenue : Int) : Step :=
  tag "amounts"
    [mapping [("month", int month)],
      block [tag "expenses" [int expenses], tag "revenue" [value (int revenue)]]]

def reportBlock : Expr :=
  block [tag "report"
    [block [
      tag "name" [text "Annual Report"],
      tag "class_" [text "Class of 94"],
      amounts 1 812 259,
      amounts 2 898 534]]]

def blockOf : Sample → Expr
  | document => documentBlock
  | page => pageBlock
  | report => reportBlock

end Sample

end TagTree
