/-
The names in the bundled catalogue: its languages, with their scopes and file
extensions, and its themes. The contexts of the languages and the entries of
the stylesheets are not kept here; `Bundled.catalog` takes them as `Contents`.
-/
import Highlight.Catalog

namespace Highlight.Bundled

/-- Each language with its scope and its file extensions, in the order of registration. -/
def languageNames : List (String × String × List String) :=
  [ ("Plain Text", "text.plain", ["txt"]),
    ("ASP", "source.asp", ["asa"]),
    ("HTML (ASP)", "text.html.asp", ["asp"]),
    ("ActionScript", "source.actionscript.2", ["as"]),
    ("AppleScript", "source.applescript", ["applescript", "script editor"]),
    ("Batch File", "source.dosbatch", ["bat", "cmd"]),
    ("NAnt Build File", "source.nant-build", ["build"]),
    ("C#", "source.cs", ["cs", "csx"]),
    ("C++", "source.c++",
      ["cpp", "cc", "cp", "cxx", "c++", "C", "h", "hh", "hpp", "hxx", "h++", "inl", "ipp"]),
    ("C", "source.c", ["c", "h"]),
    ("CSS", "source.css", ["css", "css.erb", "css.liquid"]),
    ("Clojure", "source.clojure", ["clj"]),
    ("D", "source.d", ["d", "di"]),
    ("Diff", "source.diff", ["diff", "patch"]),
    ("Erlang", "source.erlang", ["erl", "hrl", "Emakefile", "emakefile"]),
    ("HTML (Erlang)", "text.html.erlang.yaws", ["yaws"]),
    ("Go", "source.go", ["go"]),
    ("Graphviz (DOT)", "source.dot", ["dot", "DOT", "gv"]),
    ("Groovy", "source.groovy", ["groovy", "gvy", "gradle"]),
    ("HTML", "text.html.basic", ["html", "htm", "shtml", "xhtml", "inc", "tmpl", "tpl"]),
    ("Haskell", "source.haskell", ["hs"]),
    ("Literate Haskell", "text.tex.latex.haskell", ["lhs"]),
    ("Java Server Page (JSP)", "text.html.jsp", ["jsp"]),
    ("Java", "source.java", ["java", "bsh"]),
    ("JavaDoc", "text.html.javadoc", []),
    ("Java Properties", "source.java-props", ["properties"]),
    ("JSON", "source.json",
      ["json", "sublime-settings", "sublime-menu", "sublime-keymap", "sublime-mousemap", "sublime-theme",
        "sublime-build", "sublime-project", "sublime-completions", "sublime-commands", "sublime-macro",
        "sublime-color-scheme"]),
    ("JavaScript", "source.js", ["js", "htc"]),
    ("Regular Expressions (Javascript)", "source.regexp.js", []),
    ("BibTeX", "text.bibtex", ["bib"]),
    ("LaTeX Log", "text.log.latex", []),
    ("LaTeX", "text.tex.latex", ["tex", "ltx"]),
    ("TeX", "text.tex", ["sty", "cls"]),
    ("Lisp", "source.lisp", ["lisp", "cl", "clisp", "l", "mud", "el", "scm", "ss", "lsp", "fasl"]),
    ("Lua", "source.lua", ["lua"]),
    ("Make Output", "source.build_output", []),
    ("Makefile", "source.makefile",
      ["make", "GNUmakefile", "makefile", "Makefile", "OCamlMakefile", "mak", "mk"]),
    ("Markdown", "text.html.markdown", ["md", "mdown", "markdown", "markdn"]),
    ("MultiMarkdown", "text.html.markdown.multimarkdown", []),
    ("MATLAB", "source.matlab", ["matlab"]),
    ("OCaml", "source.ocaml", ["ml", "mli"]),
    ("OCamllex", "source.ocamllex", ["mll"]),
    ("OCamlyacc", "source.ocamlyacc", ["mly"]),
    ("camlp4", "source.camlp4.ocaml", []),
    ("Objective-C++", "source.objc++", ["mm", "M", "h"]),
    ("Objective-C", "source.objc", ["m", "h"]),
    ("PHP Source", "source.php", []),
    ("PHP", "embedding.php", ["php", "php3", "php4", "php5", "php7", "phps", "phpt", "phtml"]),
    ("Pascal", "source.pascal", ["pas", "p", "dpr"]),
    ("Perl", "source.perl", ["pl", "pm", "pod", "t", "PL"]),
    ("Python", "source.python",
      ["py", "py3", "pyw", "pyi", "pyx", "pyx.in", "pxd", "pxd.in", "pxi", "pxi.in", "rpy", "cpy",
        "SConstruct", "Sconstruct", "sconstruct", "SConscript", "gyp", "gypi", "Snakefile", "wscript"]),
    ("Regular Expressions (Python)", "source.regexp.python", []),
    ("R Console", "source.r-console", []),
    ("R", "source.r", ["R", "r", "s", "S", "Rprofile"]),
    ("Rd (R Documentation)", "text.tex.latex.rd", ["rd"]),
    ("HTML (Rails)", "text.html.ruby", ["rails", "rhtml", "erb", "html.erb"]),
    ("JavaScript (Rails)", "source.js.rails", ["js.erb"]),
    ("Ruby Haml", "text.haml", ["haml", "sass"]),
    ("Ruby on Rails", "source.ruby.rails", ["rxml", "builder"]),
    ("SQL (Rails)", "source.sql.ruby", ["erbsql", "sql.erb"]),
    ("Regular Expression", "source.regexp", ["re"]),
    ("reStructuredText", "text.restructuredtext", ["rst", "rest"]),
    ("Ruby", "source.ruby",
      ["rb", "Appfile", "Appraisals", "Berksfile", "Brewfile", "capfile", "cgi", "Cheffile", "config.ru",
        "Deliverfile", "Fastfile", "fcgi", "Gemfile", "gemspec", "Guardfile", "irbrc", "jbuilder",
        "podspec", "prawn", "rabl", "rake", "Rakefile", "Rantfile", "rbx", "rjs", "ruby.rail", "Scanfile",
        "simplecov", "Snapfile", "thor", "Thorfile", "Vagrantfile"]),
    ("Cargo Build Results", "source.build_results", []),
    ("Rust", "source.rust", ["rs"]),
    ("SQL", "source.sql", ["sql", "ddl", "dml"]),
    ("Scala", "source.scala", ["scala", "sbt"]),
    ("Bourne Again Shell (bash)", "source.shell.bash",
      ["sh", "bash", "zsh", "fish", ".bash_aliases", ".bash_completions", ".bash_functions", ".bash_login",
        ".bash_logout", ".bash_profile", ".bash_variables", ".bashrc", ".profile", ".textmate_init"]),
    ("Shell-Unix-Generic", "source.shell", []),
    ("commands-builtin-shell-bash", "commands.builtin.shell.bash", []),
    ("HTML (Tcl)", "text.html.tcl", ["adp"]),
    ("Tcl", "source.tcl", ["tcl"]),
    ("Textile", "text.html.textile", ["textile"]),
    ("XML", "text.xml", ["xml", "xsd", "xslt", "tld", "dtml", "rss", "opml", "svg"]),
    ("YAML", "source.yaml", ["yaml", "yml", "sublime-syntax"])]

def themeNames : List String :=
  ["InspiredGitHub", "Solarized (dark)", "Solarized (light)", "base16-eighties.dark", "base16-mocha.dark",
    "base16-ocean.dark", "base16-ocean.light"]

/-- A language without rules. -/
def plainLanguage (name scope : String) (extensions : List String) : Language.Definition where
  name
  scope := ((Scope.parse scope).toOption).getD .empty
  extensions
  contexts := [("main", {})]

/-- What stands behind the names. A language without contexts of its own is plain text, and a theme without entries
colours nothing. -/
structure Contents where
  /-- The contexts of the language with a scope. -/
  contexts : String → List (String × Language.Context) := fun _ => [("main", {})]
  /-- The entries of the stylesheet with a name. -/
  entries : String → List (StyleItem Selector) := fun _ => []

/-- The languages and stylesheets under the bundled names. -/
def catalog (contents : Contents := {}) : Catalog Language.Contexts where
  languages := languageNames.map fun (name, scope, extensions) =>
    { plainLanguage name scope extensions with contexts := contents.contexts scope : Language.Definition }.registered
  stylesheets := themeNames.map fun name => (name, { items := contents.entries name })

end Highlight.Bundled
