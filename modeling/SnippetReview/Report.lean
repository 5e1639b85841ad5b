import SnippetReview.Document.Json
import SnippetReview.Document.Yaml
import SnippetReview.Report.Human

set_option autoImplicit false

namespace SnippetReview

inductive Format where
  | json
  | yaml
  | human
deriving DecidableEq, Repr

namespace Format

def name : Format → String
  | json => "json"
  | yaml => "yaml"
  | human => "human"

def all : List Format := [json, yaml, human]

def named? (word : String) : Option Format := all.find? fun format => format.name == word

def write (format : Format) (document : Document) (readable : String) : String :=
  match format with
  | json => document.toJson
  | yaml => document.toYaml
  | human => readable

end Format

def Review.report (format : Format) (r : Review) : String := format.write r.toDocument r.toHuman

def Extraction.report (format : Format) (e : Extraction) : String := format.write e.toDocument e.toHuman

def listingReport (format : Format) (entries : List ListedEntry) : String :=
  format.write (.list (entries.map (·.toDocument))) (listingToHuman entries)

def hostsReport (format : Format) (registry : Registry) : String :=
  format.write (.list (registry.hosts.map Host.toDocument)) (hostsToHuman registry.hosts)

end SnippetReview
