import DepGraph.Failure
import DepGraph.Json.Writer
import DepGraph.Yaml.Writer

/-!
# Graphs as texts

A graph in the two notations of deps files. What is written reads back as the same graph.
-/

namespace DepGraph.Graph

/-- The first line of every YAML deps file. -/
def yamlBanner : String := "# Fine-grained v0\n"

def toJson (g : Graph) : String := Json.pretty g.toFile.toData

def toYaml (g : Graph) : String := yamlBanner ++ Yaml.write g.toFile.toData

/-- The graph of a deps file in JSON. -/
def ofJson (bytes : ByteArray) : Except Failure Graph := do
  let file ← within "Failed to parse deps JSON"
    (orFail .json (Json.readText DepsFile.read (Text.glyphs bytes)))
  orFail .file file.graph

/-- The graph of a deps file in YAML. -/
def ofYaml (text : String) : Except Failure Graph := do
  let file ← within "Failed to parse YAML deps" (orFail .yaml (Yaml.readText DepsFile.read text))
  orFail .file file.graph

end DepGraph.Graph
