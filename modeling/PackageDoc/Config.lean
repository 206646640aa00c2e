import PackageDoc.Glob
import PackageDoc.Text.Printable

namespace PackageDoc

/-!
# Configuration of a run
-/

/-- How headings are linked in rendered documentation. -/
inductive LinkMode where
  /-- Explicit anchors. -/
  | headingId
  /-- The anchors of the site generator. -/
  | vuepress
  deriving Repr, DecidableEq, Inhabited

namespace LinkMode

/-- The name of a mode. -/
def text : LinkMode → String
  | headingId => "heading_id"
  | vuepress => "vuepress"

/-- The mode of a name. -/
def ofText? (name : String) : Option LinkMode :=
  [headingId, vuepress].find? fun m => m.text == name

/-- The wording of the error about a name that no mode has. -/
def unknownMessage (name : String) : String :=
  "unknown link mode " ++ Text.quoted name ++ " (expected heading_id or vuepress)"

end LinkMode

/-- What a run leaves out and how its result is linked. -/
structure Config where
  /-- Modules that are not looked at. -/
  skip : PatternSet := {}
  /-- Modules that are analysed and not documented. -/
  undoc : PatternSet := {}
  linkMode : LinkMode := .headingId
  deriving Repr, DecidableEq, Inhabited

namespace Config

/-- Is the module left out altogether? -/
def isSkipped (config : Config) (module : String) : Bool :=
  config.skip.matches? module

/-- Is the module left out of the documentation? -/
def isUndocumented (config : Config) (module : String) : Bool :=
  config.undoc.matches? module

end Config
end PackageDoc
