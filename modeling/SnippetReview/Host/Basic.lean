import SnippetReview.Label

set_option autoImplicit false

namespace SnippetReview

inductive Host where
  | javascript
  | python
  | ruby
  | php
  | go
  | java
  | kotlin
  | dotnet
  | cocoa
  | dart
  | rust
  | elixir
deriving DecidableEq, Repr

namespace Host

def all : List Host :=
  [javascript, python, ruby, php, go, java, kotlin, dotnet, cocoa, dart, rust, elixir]

def label : Host → Label
  | javascript => ⟨"javascript", "JavaScript", ["js", "node", "typescript", "ts", "browser"]⟩
  | python => ⟨"python", "Python", ["py"]⟩
  | ruby => ⟨"ruby", "Ruby", ["rb", "rails"]⟩
  | php => ⟨"php", "PHP", ["laravel"]⟩
  | go => ⟨"go", "Go", ["golang"]⟩
  | java => ⟨"java", "Java", ["spring"]⟩
  | kotlin => ⟨"kotlin", "Kotlin", ["kt", "android"]⟩
  | dotnet => ⟨"dotnet", "C#", ["csharp", "cs", ".net"]⟩
  | cocoa => ⟨"cocoa", "Swift", ["swift", "ios"]⟩
  | dart => ⟨"dart", "Dart", ["flutter"]⟩
  | rust => ⟨"rust", "Rust", ["rs"]⟩
  | elixir => ⟨"elixir", "Elixir", ["ex", "exs"]⟩

instance : Labelled Host := ⟨"SyntaxId", all, label⟩

def id (host : Host) : String := host.label.id

def name (host : Host) : String := host.label.name

def extensions : Host → List String
  | javascript => ["js", "mjs", "cjs", "jsx", "ts", "mts", "tsx"]
  | python => ["py", "pyw"]
  | ruby => ["rb", "rake"]
  | php => ["php"]
  | go => ["go"]
  | java => ["java"]
  | kotlin => ["kt", "kts"]
  | dotnet => ["cs", "csx"]
  | cocoa => ["swift", "m", "mm"]
  | dart => ["dart"]
  | rust => ["rs"]
  | elixir => ["ex", "exs"]

def sample : Host → String
  | javascript => "Sentry.init(\x7b dsn: \"...\" \x7d)"
  | python => "sentry_sdk.init(dsn=\"...\")"
  | ruby => "Sentry.init do |config| config.dsn = '...' end"
  | php => "\\Sentry\\init(['dsn' => '...']);"
  | go => "sentry.Init(sentry.ClientOptions\x7b Dsn: \"...\" \x7d)"
  | java => "Sentry.init(options -> \x7b options.setDsn(\"...\"); \x7d);"
  | kotlin => "SentryAndroid.init(this) \x7b options -> options.dsn = \"...\" \x7d"
  | dotnet => "SentrySdk.Init(options => \x7b options.Dsn = \"...\"; \x7d);"
  | cocoa => "SentrySDK.start \x7b options in options.dsn = \"...\" \x7d"
  | dart => "SentryFlutter.init((options) \x7b options.dsn = '...'; \x7d);"
  | rust => "sentry::ClientOptions \x7b release: sentry::release_name!(), ..Default::default() \x7d"
  | elixir => "config :sentry, dsn: \"...\""

end Host

structure Registry where
  hosts : List Host

namespace Registry

def empty : Registry := ⟨[]⟩

def full : Registry := ⟨Host.all⟩

def contains (registry : Registry) (host : Host) : Bool := registry.hosts.contains host

def register (registry : Registry) (host : Host) : Registry :=
  ⟨Host.all.filter fun h => registry.contains h || h == host⟩

def ofList (hosts : List Host) : Registry := hosts.foldl register empty

def size (registry : Registry) : Nat := registry.hosts.length

-- The language of a file extension, given with or without leading dots in any letter case.
def ofExtension? (registry : Registry) (extension : String) : Option Host :=
  let word := Text.lower (String.ofList (extension.toList.dropWhile (· == '.')))
  registry.hosts.find? fun host => host.extensions.contains word

end Registry

end SnippetReview
