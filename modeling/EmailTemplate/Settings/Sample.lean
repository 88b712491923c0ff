/-! A settings file to start from. -/

namespace EmailTemplate

/-- A settings file that spells out the standard settings and explains them; to read it changes
nothing. -/
def sampleSettings : String :=
  "\n".intercalate
    ["# mailmold configuration",
      "# ======================",
      "# All settings are optional. Remove or comment out any you don't need.",
      "# Values shown below are the defaults. Unknown keys are an error.",
      "",
      "# ---------------------------------------------------------------------------",
      "# Adaptation (turning a finished email into a template)",
      "# ---------------------------------------------------------------------------",
      "[adapt]",
      "# Named regions to wrap in \x7b\x7b#block:NAME\x7d\x7d...\x7b\x7b/block:NAME\x7d\x7d" ++
        " sections.",
      "# Each name is matched against class, id and data-block attributes.",
      "detect_blocks = [\"speakers\", \"agenda\", \"hero\", \"footer\"]",
      "",
      "# Which button-like links become \x7b\x7bcta_*\x7d\x7d placeholders:",
      "#   \"auto\"       - the first three",
      "#   \"all\"        - every one",
      "#   \"top_bottom\" - first and last, as cta_top_* and cta_bottom_*",
      "cta_strategy = \"auto\"",
      "",
      "# Insert a hidden \x7b\x7bpreheader\x7d\x7d block when the email has none.",
      "preheader_fallback = true",
      "",
      "# Keep HTML comments (e.g. Outlook conditional comments).",
      "preserve_comments = false",
      "",
      "# ---------------------------------------------------------------------------",
      "# Limits",
      "# ---------------------------------------------------------------------------",
      "[limits]",
      "# Largest HTML or template accepted, in bytes.",
      "max_input_bytes = 2097152",
      "",
      "# ---------------------------------------------------------------------------",
      "# Processing",
      "# ---------------------------------------------------------------------------",
      "[processing]",
      "# Maximum parallel workers for adapt-dir.",
      "# Omit or comment out to auto-detect (= number of CPU cores).",
      "# max_processes = 4",
      ""]

end EmailTemplate
