/-!
# The package

What the library says about itself.
-/

namespace TagTree

def version : String := "0.1.0"

def author : String := "Simple XML Builder Team"

def offeredNames : List String :=
  ["AmbiguousBlockPolicy", "BuilderConfig", "BuilderError", "EmptyBuildError",
    "InvalidArgumentShapeError", "TagHandle", "XMLElement", "XMLTreeBuilder", "__author__",
    "__version__", "build", "build_string", "to_etree", "to_lxml"]

end TagTree
