/-! # Output formats

Graphs are shown in a viewer, written to files in an encoding, or put out together as one JSON
document. Every encoding has the extension that its files usually have; no two share one.
-/

namespace ProgramGraphs

/-- The windows in which graphs can be shown. -/
inductive Viewer where
  | gtk
  | xlib
  deriving DecidableEq, Repr

namespace Viewer

/-- All viewers. -/
def all : List Viewer :=
  [.gtk, .xlib]

/-- The name of a viewer. -/
def name : Viewer → String
  | .gtk => "Gtk"
  | .xlib => "Xlib"

/-- The viewer of a name. -/
def ofName? (name : String) : Option Viewer :=
  all.find? (·.name == name)

end Viewer

/-- The encodings of a drawn graph. -/
inductive Encoding where
  | canon
  | dot
  | xdot
  | eps
  | fig
  | gif
  | jpeg
  | pdf
  | plain
  | png
  | ps
  | svg
  | svgz
  | tiff
  | webp
  deriving DecidableEq, Repr

namespace Encoding

/-- All encodings. -/
def all : List Encoding :=
  [.canon, .dot, .xdot, .eps, .fig, .gif, .jpeg, .pdf, .plain, .png, .ps, .svg, .svgz, .tiff,
    .webp]

/-- The name of an encoding. -/
def name : Encoding → String
  | .canon => "Canon"
  | .dot => "Dot"
  | .xdot => "XDot"
  | .eps => "Eps"
  | .fig => "Fig"
  | .gif => "Gif"
  | .jpeg => "Jpeg"
  | .pdf => "Pdf"
  | .plain => "Plain"
  | .png => "Png"
  | .ps => "Ps"
  | .svg => "Svg"
  | .svgz => "Svgz"
  | .tiff => "Tiff"
  | .webp => "WebP"

/-- The extension of files in an encoding, without the dot. -/
def extension : Encoding → String
  | .canon => "gv"
  | .dot => "dot"
  | .xdot => "xdot"
  | .eps => "eps"
  | .fig => "fig"
  | .gif => "gif"
  | .jpeg => "jpg"
  | .pdf => "pdf"
  | .plain => "txt"
  | .png => "png"
  | .ps => "ps"
  | .svg => "svg"
  | .svgz => "svgz"
  | .tiff => "tiff"
  | .webp => "webp"

/-- The encoding of a name. -/
def ofName? (name : String) : Option Encoding :=
  all.find? (·.name == name)

/-- The encoding whose files have an extension. -/
def ofExtension? (extension : String) : Option Encoding :=
  all.find? (·.extension == extension)

end Encoding

/-- Where graphs go, and how. -/
inductive OutputFormat where
  | viewer (window : Viewer)
  | files (encoding : Encoding)
  | json
  deriving DecidableEq, Repr

namespace OutputFormat

/-- Graphs are shown when nothing else is asked for. -/
def standard : OutputFormat :=
  .viewer .gtk

/-- The name of a format. -/
def name : OutputFormat → String
  | .viewer window => window.name
  | .files encoding => encoding.name
  | .json => "Json"

/-- The format of a name. -/
def ofName? (name : String) : Option OutputFormat :=
  if name = "Json" then some .json
  else (OutputFormat.viewer <$> Viewer.ofName? name) <|> (.files <$> Encoding.ofName? name)

/-- The format of files with an extension. -/
def ofExtension? (extension : String) : Option OutputFormat :=
  if extension = "json" then some .json else .files <$> Encoding.ofExtension? extension

end OutputFormat

end ProgramGraphs
